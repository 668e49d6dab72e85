import ExprTree.Proofs.Function.Denotation
import ExprTree.Proofs.Host

namespace ExprTree

/-!
# Both strategies give the same

Code gives what walking the reduced tree gives (`Lambda.fast_agrees`): on
corresponding arguments, the same error or corresponding values, with the same
ids taken.

Functions have to correspond one to one for that, since `==` compares them by
identity: `not_agree_of_two_closures` is what happens otherwise.
-/

namespace Lambda

variable {hosts : Hosts} {ρ : Nat → Nat → Prop}

/-- **The two strategies agree.**  Wherever a lambda can be emitted, under whatever
    options, the code and the tree walk give the same error or corresponding values
    on corresponding arguments, and take the same ids. -/
theorem fast_agrees {lambda : Lambda Value} {options : CompilerOptions}
    {callable : Callable Value} {plan : Plan} {supply : Supply} (hhosts : hosts.Sound)
    (hrespects : hosts.Respects ρ supply.nextFunction)
    (hemit : lambda.emit options = .ok (callable, plan))
    (hsound : Value.AllOf Value.Fits lambda.parts)
    (hcoherent : Value.Coherent fun c => c ∈ lambda.literals)
    (hmatched : Value.AllOf (Value.IsMatched ρ) lambda.literals) {args args' : List Value}
    (hargs : List.Forall₂ (Value.Corresponds ρ) args args')
    (hargsSound : Value.AllOf Value.Fits args) (hargsSound' : Value.AllOf Value.Fits args')
    (hmatching : Matching ρ supply.nextFunction) :
    let fast : CompiledFn := ⟨callable, .fast, options.maxCallDepth, some plan⟩
    let walk : CompiledFn := lambda.reduce.interpret options
    ResultsAgree (Value.Corresponds ρ) (fast.invoke hosts args supply).1
        (walk.invoke hosts args' supply).1
      ∧ (fast.invoke hosts args supply).2 = (walk.invoke hosts args' supply).2 := by
  intro fast walk
  obtain ⟨hdenotes, hparts⟩ := denotes_of_emit hcoherent (fun _ hc => hc) hemit
  obtain ⟨hwalk, hwalkParts⟩ := denotes_interpret lambda.reduce options
  have hliterals : Value.AllOf Value.Fits lambda.literals :=
    hsound.of_subset fun c hc => Expr.literals_subset_parts _ hc
  have hfastSound : Value.AllOf Value.Fits callable.parts := fun part hpart =>
    (hparts part hpart).elim
      (fun hprim => Value.sound_of_isScalar (Value.isScalar_of_isPrimitive hprim))
      (hliterals part)
  have hwalkSound : Value.AllOf Value.Fits walk.callable.parts := by
    rw [hwalkParts]
    exact hsound.of_subset fun c hc => Expr.parts_reduce _ hc
  have huses : ∀ c ∈ lambda.reduce.body.uses, Value.Corresponds ρ c c := fun c hc => by
    have hc := Expr.literals_reduce _ (Expr.uses_subset_literals _ hc)
    exact .refl (hliterals c hc) (hmatched c hc)
  -- Neither function knows anything from outside, and nothing is asked of its id.
  have hid := hmatching.fresh (Nat.le_refl _)
  have hcorresponds : Value.Corresponds ρ (.function supply.nextFunction callable)
      (.function supply.nextFunction walk.callable) :=
    .closure hid hdenotes hwalk huses fun _ _ => .none
  have hcalls := callsAgree hhosts hrespects hmatching (CallStack.new options.maxCallDepth).room
    (Nat.le_refl _) (Nat.le_refl _) hcorresponds hfastSound hwalkSound hargs hargsSound hargsSound'
  exact ⟨hcalls.result, hcalls.supply⟩

/-! ### Functions are compared by identity -/

/-- Whether two arguments are equal. -/
def equality : Lambda Value :=
  ⟨[⟨1, "f", .any⟩, ⟨2, "g", .any⟩],
    .binary .eq (.parameter ⟨1, "f", .any⟩) (.parameter ⟨2, "g", .any⟩)⟩

/-- What the default options make of `equality`. -/
def equalityCode : Callable Value :=
  .compiled equality.params (.binary .eq (.slot (.argument 0)) (.slot (.argument 1))) [] []

/-- The plan of `equalityCode`. -/
def equalityPlan : Plan := ⟨[], [⟨0, ["f", "g"], []⟩], 0, 0⟩

/-- `equality` by the fast strategy. -/
def equalityFast : CompiledFn :=
  ⟨equalityCode, .fast, CallStack.defaultLimit, some equalityPlan⟩

/-- `equality` by the tree walk. -/
def equalityWalk : CompiledFn := equality.reduce.interpret {}

theorem emit_equality : equality.emit {} = .ok (equalityCode, equalityPlan) := rfl

/-- The code compares its two arguments. -/
theorem equalityFast_invoke (f g : Value) (supply : Supply) :
    (equalityFast.invoke hosts [f, g] supply).1 = .ok (.bool (f == g)) := by
  simp [CompiledFn.invoke, equalityFast, equalityCode, equality, call, checkParameters,
    firstMisfit?, Ty.accepts, CallStack.during, CallStack.enter, CallStack.new,
    CallStack.defaultLimit, exec, Activation.read, Activation.entry, Outcome.bind, Outcome.done,
    BinaryOp.apply]

/-- The walk over the tree compares its two arguments, too. -/
theorem equalityWalk_invoke (f g : Value) (supply : Supply) :
    (equalityWalk.invoke hosts [f, g] supply).1 = .ok (.bool (f == g)) := by
  simp [CompiledFn.invoke, equalityWalk, interpret, reduce, equality, Expr.reduce, call,
    checkParameters, firstMisfit?, Ty.accepts, CallStack.during, CallStack.enter, CallStack.new,
    CallStack.defaultLimit, eval, BinaryOp.isShortCircuit, Env.resolve, Env.lookup?,
    Frame.lookup?, Frame.bind, Outcome.bind, Outcome.done, BinaryOp.apply]

/-- A function of no arguments that returns none. -/
def idle (id : Nat) : Value := .function id (.interpreted [] (.constant .none) [])

/-- A closure over nothing is sound. -/
theorem sound_idle (id : Nat) : (idle id).Sound := by
  have hfits : (idle id).Fits :=
    .inr ⟨_, _, Callable.denotes_interpreted [] (.constant .none)⟩
  refine Value.all_iff.2 ⟨hfits, fun part hpart => ?_⟩
  cases List.mem_singleton.1 hpart
  exact Value.sound_of_isScalar rfl

/-- Up to the matching, any two of them are the same function. -/
theorem idle_corresponds {i j : Nat} (h : ρ i j) : Value.Corresponds ρ (idle i) (idle j) := by
  have hdenotes := Callable.denotes_interpreted [] (.constant Value.none)
  refine .closure h hdenotes hdenotes (fun c hc => ?_) fun _ _ => .none
  cases List.mem_singleton.1 hc
  exact .scalar rfl

/-- Two closures of one lambda, given to both strategies. -/
theorem fast_agrees_equality :
    ResultsAgree (Value.Corresponds (· = ·))
        (equalityFast.invoke Hosts.standard [idle 1, idle 2] ⟨1, 3, 1, 3⟩).1
        (equalityWalk.invoke Hosts.standard [idle 1, idle 2] ⟨1, 3, 1, 3⟩).1
      ∧ (equalityFast.invoke Hosts.standard [idle 1, idle 2] ⟨1, 3, 1, 3⟩).2
        = (equalityWalk.invoke Hosts.standard [idle 1, idle 2] ⟨1, 3, 1, 3⟩).2 := by
  have hargs : List.Forall₂ (Value.Corresponds (· = ·)) [idle 1, idle 2] [idle 1, idle 2] :=
    .cons (idle_corresponds rfl) (.cons (idle_corresponds rfl) .nil)
  have hsound : Value.AllOf Value.Fits [idle 1, idle 2] := by
    rintro value hvalue
    rcases List.mem_pair.1 hvalue with rfl | rfl <;> exact sound_idle _
  -- the lambda has no constants, so nothing is asked of them
  have hnone : ∀ value, value ∉ equality.literals := fun _ h => by cases h
  have hparts : Value.AllOf Value.Fits equality.parts := fun _ h => by cases h
  exact fast_agrees Hosts.standard_sound (Hosts.standard_respects _ _) emit_equality hparts
    ⟨fun h _ => absurd h (hnone _), fun h _ => absurd h (hnone _)⟩
    (fun value h => absurd h (hnone value)) hargs hsound hsound (.same _)

/-- Where the ids of functions do not count, arguments may correspond and the
    strategies not agree: one closure given twice is equal to itself, two closures
    of its lambda are not. -/
theorem not_agree_of_two_closures :
    equality.emit {} = .ok (equalityFast.callable, equalityPlan)
      ∧ List.Forall₂ (Value.Corresponds fun _ _ => True) [idle 1, idle 1] [idle 1, idle 2]
      ∧ ¬ ResultsAgree (Value.Corresponds fun _ _ => True)
        (equalityFast.invoke Hosts.standard [idle 1, idle 1] ⟨1, 3, 1, 3⟩).1
        (equalityWalk.invoke Hosts.standard [idle 1, idle 2] ⟨1, 3, 1, 3⟩).1 := by
  refine ⟨emit_equality, .cons (idle_corresponds trivial) (.cons (idle_corresponds trivial) .nil),
    fun h => ?_⟩
  rw [equalityFast_invoke, equalityWalk_invoke] at h
  cases h with
  | ok h => cases h

end Lambda

end ExprTree
