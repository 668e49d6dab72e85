import ExprTree.Error.Runtime

namespace ExprTree

/-!
# The call stack

A `CallStack` counts the function bodies that are running and knows how many may
run at once.  Every call enters it once before its body starts and exits once
when the body is done, with a value or an error.  `CallStack.room` is what is
left, the quantity that bounds evaluation.
-/

/-- How many function bodies are running, and how many may. -/
structure CallStack where
  depth : Nat
  limit : Nat
  depth_le_limit : depth ≤ limit
  deriving DecidableEq, Repr

namespace CallStack

/-- The limit where none is asked for. -/
def defaultLimit : Nat := 1024

/-- The stack on which nothing runs yet. -/
def new (limit : Nat) : CallStack := ⟨0, limit, Nat.zero_le _⟩

/-- How many more calls can be nested. -/
def room (stack : CallStack) : Nat := stack.limit - stack.depth

/-- Starts a body, unless as many as allowed are running. -/
def enter (stack : CallStack) : Except RuntimeError CallStack :=
  if h : stack.depth < stack.limit then .ok ⟨stack.depth + 1, stack.limit, h⟩
  else .error (.recursionLimit stack.limit)

/-- Ends a body; where none is running nothing happens. -/
def exit (stack : CallStack) : CallStack :=
  ⟨stack.depth - 1, stack.limit, Nat.le_trans (Nat.sub_le _ _) stack.depth_le_limit⟩

theorem room_lt_of_enter {stack inner : CallStack} (h : stack.enter = .ok inner) :
    inner.room < stack.room := by
  unfold enter at h
  split at h
  · cases h
    simp only [room]
    omega
  · cases h

theorem exit_enter {stack inner : CallStack} (h : stack.enter = .ok inner) :
    inner.exit = stack := by
  unfold enter at h
  split at h <;> cases h
  rfl

theorem room_exit_le (stack : CallStack) : stack.exit.room ≤ stack.room + 1 := by
  simp only [room, exit]
  omega

/-- Entering counts one more body and leaves the limit as it is. -/
theorem enter_eq_ok {stack inner : CallStack} (h : stack.enter = .ok inner) :
    inner.depth = stack.depth + 1 ∧ inner.limit = stack.limit := by
  unfold enter at h
  split at h <;> cases h
  exact ⟨rfl, rfl⟩

/-- The only thing that can go wrong is the limit. -/
theorem enter_eq_error {stack : CallStack} {error : RuntimeError} (h : stack.enter = .error error) :
    error = .recursionLimit stack.limit := by
  unfold enter at h
  split at h <;> cases h
  rfl

theorem enter_of_full {stack : CallStack} (h : stack.depth = stack.limit) :
    stack.enter = .error (.recursionLimit stack.limit) := by
  simp [enter, h]

end CallStack

end ExprTree
