import ExprTree.CallStack
import ExprTree.Run.Supply

namespace ExprTree

/-!
# Outcomes of running code

Running code changes two things besides giving a value or an error: the call
stack, which it enters and exits, and the supply of ids.  An `Outcome` keeps all
of that, for an error as well as for a value.

The type of an outcome bounds the stack it leaves: there is no more room on it
than before.  That much is what makes evaluation terminate.
-/

/-- What a step gives that started on the stack `before`. -/
structure Outcome (before : CallStack) (α : Type) where
  result : Except RuntimeError α
  stack : CallStack
  supply : Supply
  room_le : stack.room ≤ before.room

namespace Outcome

variable {α β : Type} {stack : CallStack}

/-- A step that makes no call. -/
def done (stack : CallStack) (supply : Supply) (result : Except RuntimeError α) :
    Outcome stack α :=
  ⟨result, stack, supply, Nat.le_refl _⟩

/-- Goes on with the value of a step, on the stack and the supply it left; an error ends the run. -/
@[inline] def bind (outcome : Outcome stack α)
    (next : α → (after : CallStack) → after.room ≤ stack.room → Supply → Outcome after β) :
    Outcome stack β :=
  match outcome with
  | ⟨.error error, after, supply, h⟩ => ⟨.error error, after, supply, h⟩
  | ⟨.ok value, after, supply, h⟩ =>
    let last := next value after h supply
    ⟨last.result, last.stack, last.supply, Nat.le_trans last.room_le h⟩

end Outcome

/-- Runs the body of a call: enters the stack, and exits it when the body is
    done, with a value or an error. -/
@[inline] def CallStack.during {α : Type} (stack : CallStack) (supply : Supply)
    (body : (inner : CallStack) → inner.room < stack.room → Outcome inner α) :
    Outcome stack α :=
  match h : stack.enter with
  | .error error => .done stack supply (.error error)
  | .ok inner =>
    let outcome := body inner (room_lt_of_enter h)
    ⟨outcome.result, outcome.stack.exit, outcome.supply,
      Nat.le_trans (room_exit_le _)
        (Nat.lt_of_le_of_lt outcome.room_le (room_lt_of_enter h))⟩

end ExprTree
