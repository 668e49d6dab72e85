import ExprTree.Proofs.Function.Compilation
import ExprTree.Proofs.Function.Independence
import ExprTree.Proofs.Host
import ExprTree.Proofs.Number
import ExprTree.Proofs.Run.Typing

namespace ExprTree

/-!
# Comparing the strategies

`CompiledFn.compare` runs the baseline, then the fast function on the same arguments,
and `Comparison.agrees` compares the results.  Both always give the same error or
values that correspond; nevertheless the comparison fails where a value shows NaN,
which is not equal to itself (`Lambda.compare_agrees_iff`).
-/

/-! ### Values -/

namespace Value

/-- A value in which `equivalent` comes upon NaN: it looks into objects that were made
    since `watermark`, at any depth. -/
inductive ShowsNaN (watermark : Nat) : Value → Prop
  | number {n : Number} : n.value.isNaN = true → ShowsNaN watermark (.number n)
  | field {id : Nat} {cls : ClassDef} {fields : List Value} {value : Value} :
      watermark ≤ id → value ∈ fields → ShowsNaN watermark value →
      ShowsNaN watermark (.object id cls fields)

variable {watermark : Nat}

/-- A scalar is equivalent to itself unless it is NaN. -/
theorem equivalent_self_iff {value : Value} (h : value.isScalar = true) :
    value.equivalent watermark value = true ↔ ¬ value.ShowsNaN watermark := by
  cases value with
  | none => exact iff_of_true rfl nofun
  | bool b => exact iff_of_true (beq_self_eq_true b) nofun
  | string s => exact iff_of_true (beq_self_eq_true s) nofun
  | number n =>
    have hself : (n == n) = true ↔ ¬ n.value.isNaN = true := by
      rw [Number.beq_self, Bool.not_eq_true', Bool.not_eq_true]
    refine hself.trans (not_congr ⟨.number, fun h => ?_⟩)
    cases h with
    | number h => exact h
  | object | function => cases h

/-- Functions are only compared by arity, which does not depend on ids. -/
theorem equivalent_function_iff {ρ : Renaming} {id id' : Nat} {f g : Callable Value}
    (h : f.arity = g.arity) :
    (function id f).equivalent watermark ((function id' g).rename ρ) = true
      ↔ ¬ (function id f).ShowsNaN watermark := by
  have hrename : (g.rename ρ).arity = g.arity := by cases g <;> rfl
  refine iff_of_true ?_ nofun
  rw [rename, equivalent, hrename, h, beq_self_eq_true]

/-- An object that was made shows NaN where its fields do. -/
theorem not_showsNaN_object_iff {id : Nat} (hid : watermark ≤ id) {cls : ClassDef}
    {fields : List Value} :
    ¬ (object id cls fields).ShowsNaN watermark ↔ ∀ field ∈ fields, ¬ field.ShowsNaN watermark := by
  constructor
  · exact fun h field hmem hshows => h (.field hid hmem hshows)
  · intro h hshows
    cases hshows with
    | field _ hmem hshows => exact h _ hmem hshows

/-- Fields are equivalent if they are one by one. -/
theorem fieldsEquivalent_iff {P : Value → Prop} {fields fields' : List Value}
    (h : List.Forall₂ (fun a b => a.equivalent watermark b = true ↔ P a) fields fields') :
    fieldsEquivalent watermark fields fields' = true ↔ ∀ field ∈ fields, P field := by
  induction h with
  | nil => simp [fieldsEquivalent]
  | cons hhead _ ih => rw [fieldsEquivalent, Bool.and_eq_true, hhead, ih, List.forall_mem_cons]

/-- **What the comparison of two runs sees.**  The second run starts with the supply
    `later`, which the first one left, so that it makes no object of the first one
    again.  A value of the second run is found equivalent to the corresponding one of
    the first run unless that shows NaN. -/
theorem equivalent_rename_iff {supply later : Supply} (hbefore : supply.Before later)
    {expected actual : Value} (hcorresponds : Corresponds (· = ·) actual expected)
    (hcovers : expected.All later.Covers) :
    expected.equivalent supply.nextObject (actual.rename (.shift supply later)) = true
      ↔ ¬ expected.ShowsNaN supply.nextObject := by
  induction expected using inductionOnParts generalizing actual with
  | step expected ih =>
    cases hcorresponds with
    | scalar hscalar =>
      rw [rename_of_isScalar hscalar]
      exact equivalent_self_iff hscalar
    | @object id cls fields' fields hfields =>
      rw [rename, renameAll_eq_map, equivalent, Bool.or_eq_true, beq_iff_eq]
      by_cases hold : id < supply.nextObject
      · -- An object from before is the very object.
        refine iff_of_true (.inl (if_pos hold).symm) fun h => ?_
        cases h with
        | field hid => exact Nat.not_le.2 hold hid
      · -- Of an object that the first run made, the second one has made another.
        have hid : id < later.nextObject := hcovers.self
        have hnew : (Renaming.shift supply later).object id
            = later.nextObject + (id - supply.nextObject) := if_neg hold
        have hlater := hbefore.object
        have hne : ¬ id = (Renaming.shift supply later).object id := by omega
        have hle : supply.nextObject ≤ id := Nat.not_lt.1 hold
        have hle' : supply.nextObject ≤ (Renaming.shift supply later).object id := by omega
        have hfield : ∀ field ∈ fields, ∀ actual, Corresponds (· = ·) actual field →
            (field.equivalent supply.nextObject (actual.rename (.shift supply later)) = true
              ↔ ¬ field.ShowsNaN supply.nextObject) :=
          fun field hmem actual hactual => ih field hmem hactual (hcovers.part hmem)
        have hpairs := (List.forall₂_and_left _ _).2 ⟨hfield, hfields.flip⟩
        rw [not_showsNaN_object_iff hle, ← fieldsEquivalent_iff (List.forall₂_map_right_iff.2
          (hpairs.imp fun field actual h => h.1 actual h.2))]
        simp only [hne, false_or, Bool.and_eq_true, decide_eq_true hle, decide_eq_true hle',
          beq_self_eq_true, true_and]
    | native _ => exact equivalent_function_iff rfl
    | closure _ hdenotes hdenotes' _ _ =>
      exact equivalent_function_iff (hdenotes'.arity_eq.trans hdenotes.arity_eq.symm)

end Value

/-! ### Results -/

/-- Results that agree but for NaN are found to agree if no NaN shows. -/
theorem Comparison.agrees_iff {comparison : Comparison} {P : Value → Prop}
    (h : ResultsAgree (fun expected actual =>
        expected.equivalent comparison.watermark actual = true ↔ P expected)
      comparison.expected comparison.actual) :
    comparison.agrees = true ↔ ∀ value, comparison.expected = .ok value → P value := by
  obtain ⟨expected, actual, watermark⟩ := comparison
  cases h with
  | ok h => simpa [agrees] using h
  | error => simp [agrees]

namespace Lambda

variable {hosts : Hosts} {lambda : Lambda Value} {args : List Value} {supply : Supply}

/-- Functions of one lambda, started alike, give the same error or corresponding values,
    whichever strategies compiled them. -/
theorem results_correspond (hhosts : hosts.Sound)
    (hrespects : hosts.Respects (· = ·) supply.nextFunction) (hfree : lambda.isExtensionFree = true)
    (hsound : Value.AllOf Value.Fits lambda.literals)
    (hcoherent : Value.Coherent fun c => c ∈ lambda.literals) {options options' : CompilerOptions}
    (hlimit : options.maxCallDepth = options'.maxCallDepth) {strategy strategy' : Strategy}
    {strict strict' : Bool} {fn fn' : CompiledFn}
    (h : lambda.compileBy strategy options strict = .ok fn)
    (h' : lambda.compileBy strategy' options' strict' = .ok fn')
    (hargs : Value.AllOf Value.Fits args) :
    ResultsAgree (Value.Corresponds (· = ·)) (fn.invoke hosts args supply).1
      (fn'.invoke hosts args supply).1 := by
  have hself : ∀ value : Value, value.Sound → Value.Corresponds (· = ·) value value := by
    refine fun value hvalue => .refl hvalue fun part _ => ?_
    cases part with
    | function => rfl
    | _ => trivial
  obtain ⟨val, hdenotes⟩ := denotes_of_isExtensionFree hfree hcoherent h
  obtain ⟨val', hdenotes'⟩ := denotes_of_isExtensionFree hfree hcoherent h'
  -- Both denote the lambda and, as it was validated, know nothing from outside.
  have hcallable : Value.Corresponds (· = ·) (.function 0 fn.callable)
      (.function 0 fn'.callable) :=
    .closure rfl hdenotes hdenotes'
      (fun c hc => hself c (hsound c (Expr.uses_subset_literals _ hc)))
      fun param hparam => absurd hparam (reads_of_compileBy hfree h param)
  have hdepth : fn.maxCallDepth = fn'.maxCallDepth :=
    (compileBy_eq_ok h).2.trans (hlimit.trans (compileBy_eq_ok h').2.symm)
  have hparts : Value.AllOf Value.Fits lambda.parts := parts_eq_literals hfree ▸ hsound
  have hcalls := callsAgree hhosts hrespects (.same supply.nextFunction)
    (CallStack.new fn.maxCallDepth).room (Nat.le_refl _) (Nat.le_refl _) hcallable
    (allOf_parts_of_compileBy hparts hcoherent h) (allOf_parts_of_compileBy hparts hcoherent h')
    (List.forall₂_same.2 fun arg harg => hself arg (hargs arg harg)) hargs hargs
  rw [CompiledFn.invoke, CompiledFn.invoke, ← hdepth]
  exact hcalls.result

/-- **When the comparison of the strategies passes.**  Both give the same error, or
    values of which one is a copy of the other, and it passes unless these values show
    NaN. -/
theorem compare_agrees_iff (hhosts : hosts.Sound) (hindependent : hosts.Independent)
    (hrespects : hosts.Respects (· = ·) supply.nextFunction)
    (hfree : lambda.isExtensionFree = true) (hsound : Value.AllOf Value.Fits lambda.literals)
    (hcoherent : Value.Coherent fun c => c ∈ lambda.literals) {options : CompilerOptions}
    {strict : Bool} {baseline fast : CompiledFn} (hbaseline : lambda.compile options = .ok baseline)
    (hfast : lambda.compileFast options strict = .ok fast) (hargs : Value.AllOf Value.Fits args)
    (hcovers : Value.AllOf supply.Covers (lambda.literals ++ args)) :
    (CompiledFn.compare hosts baseline fast args supply).1.agrees = true
      ↔ ∀ value, (baseline.invoke hosts args supply).1 = .ok value →
        ¬ value.ShowsNaN supply.nextObject := by
  have hbaseline : lambda.compileBy .baseline options strict = .ok baseline := hbaseline
  have hfast : lambda.compileBy .fast options strict = .ok fast := hfast
  obtain ⟨hliterals, hknown⟩ := Value.AllOf.append.1 hcovers
  have hcorrespond : ResultsAgree (Value.Corresponds (· = ·)) (fast.invoke hosts args supply).1
      (baseline.invoke hosts args supply).1 :=
    results_correspond hhosts hrespects hfree hsound hcoherent rfl hfast hbaseline hargs
  have hcoversParts : ∀ {strategy : Strategy} {fn : CompiledFn},
      lambda.compileBy strategy options strict = .ok fn →
      Value.AllOf supply.Covers (fn.callable.parts ++ args) := fun h =>
    Value.AllOf.append.2 ⟨allOf_of_compileBy (fun _ => Supply.covers_of_isScalar)
      (parts_eq_literals hfree ▸ hliterals) hcoherent h, hknown⟩
  obtain ⟨hbefore, horigin⟩ := CompiledFn.origin_of_invoke hindependent (hcoversParts hbaseline)
  -- The fast function starts with what the baseline has left.
  obtain ⟨hshift, _⟩ := CompiledFn.invoke_of_before hindependent hbefore (hcoversParts hfast)
  refine Comparison.agrees_iff ?_
  show ResultsAgree _ (baseline.invoke hosts args supply).1
    (fast.invoke hosts args (baseline.invoke hosts args supply).2).1
  rw [hshift]
  generalize (baseline.invoke hosts args supply).1 = expected at hcorrespond horigin ⊢
  generalize (fast.invoke hosts args supply).1 = actual at hcorrespond ⊢
  cases hcorrespond with
  | ok h =>
    exact .ok (Value.equivalent_rename_iff hbefore h
      ((horigin _ rfl).mono fun _ hvalue => hvalue.covered))
  | error => exact .error

/-- A lambda that puts its argument into a new box. -/
def wrap : Lambda Value :=
  ⟨[⟨1, "content", .any⟩], .new box [.parameter ⟨1, "content", .any⟩]⟩

/-- What the fast strategy makes of `wrap`. -/
def wrapFn : CompiledFn :=
  ⟨.compiled wrap.params (.construct box [.slot (.argument 0)]) [] [], .fast,
    CallStack.defaultLimit, some ⟨[], [⟨0, ["content"], []⟩], 0, 0⟩⟩

/-- The baseline makes a new box around its argument. -/
theorem interpret_wrap_invoke (content : Value) (supply : Supply) :
    ((wrap.interpret {}).invoke hosts [content] supply).1
      = .ok (.object supply.nextObject box [content]) := by
  simp [CompiledFn.invoke, interpret, wrap, box, call, checkParameters, firstMisfit?, Ty.accepts,
    CallStack.during, CallStack.enter, CallStack.new, CallStack.defaultLimit, eval, evalAll,
    Env.resolve, Env.lookup?, Frame.lookup?, Frame.bind, Outcome.bind, Outcome.done,
    ClassOver.instantiate, ClassOver.checkArguments, ClassOver.arity, Supply.object]

/-- A box that is given has NaN in it, the one that is made around it shows none. -/
theorem compare_agrees_iff_wrap :
    (CompiledFn.compare Hosts.standard (wrap.interpret {}) wrapFn [.object 1 box [.number .nan]]
      { nextObject := 2 }).1.agrees = true := by
  have hbaseline : wrap.compile {} = .ok (wrap.interpret {}) := rfl
  have hfast : wrap.compileFast {} true = .ok wrapFn := rfl
  have hliterals : Value.AllOf Value.Fits wrap.literals := List.forall_mem_nil _
  have hcovers : Value.AllOf (Supply.Covers { nextObject := 2 })
      (wrap.literals ++ [.object 1 box [.number .nan]]) :=
    List.forall_mem_singleton.2 (all_box (.number .nan) rfl (Nat.lt_succ_self 1) trivial)
  refine (compare_agrees_iff Hosts.standard_sound Hosts.standard_independent
    (Hosts.standard_respects _ _) rfl hliterals .nil hbaseline hfast
    (List.forall_mem_singleton.2 (all_box (.number .nan) rfl (.cons rfl .nil) trivial))
    hcovers).2 fun value hvalue => ?_
  rw [interpret_wrap_invoke] at hvalue
  cases hvalue
  -- the new box shows what the old one inside it does, but nothing of what that holds
  intro hshows
  cases hshows with
  | field _ hmem hshows =>
    cases List.mem_singleton.1 hmem
    cases hshows with
    | field hid _ _ => exact absurd hid (by decide)

/-! ### Overflow -/

/-- Twice a number. -/
def doubled : Expr Value :=
  .binary .add (.parameter ⟨1, "x", .number⟩) (.parameter ⟨1, "x", .number⟩)

/-- Twice a number less twice the number: zero, unless that is infinite. -/
def overflow : Lambda Value := ⟨[⟨1, "x", .number⟩], .binary .sub doubled doubled⟩

/-- The code of `doubled`. -/
def doubledCode : Code Value := .arithmetic .add (.slot (.argument 0)) (.slot (.argument 0))

/-- What the fast strategy makes of `overflow`. -/
def overflowFn : CompiledFn :=
  ⟨.compiled overflow.params (.arithmetic .sub doubledCode doubledCode) [] [], .fast,
    CallStack.defaultLimit, some ⟨[], [⟨0, ["x"], []⟩], 0, 0⟩⟩

/-- The number `2 ^ 1023`, twice which is infinite. -/
def huge : Number := ⟨Float.ofBits 0x7FE0000000000000⟩

theorem compile_overflow : overflow.compile {} = .ok (overflow.interpret {}) := rfl

theorem compileFast_overflow : overflow.compileFast {} true = .ok overflowFn := rfl

/-- The baseline subtracts twice the argument from itself. -/
theorem interpret_overflow_invoke (n : Number) (supply : Supply) :
    ((overflow.interpret {}).invoke hosts [.number n] supply).1
      = .ok (.number ((n + n) - (n + n))) := by
  simp [CompiledFn.invoke, interpret, overflow, doubled, call, checkParameters, firstMisfit?,
    Ty.accepts, CallStack.during, CallStack.enter, CallStack.new, CallStack.defaultLimit, eval,
    BinaryOp.isShortCircuit, Env.resolve, Env.lookup?, Frame.lookup?, Frame.bind, Outcome.bind,
    Outcome.done, BinaryOp.apply, BinaryOp.arithmetic, Except.map]

/-- The code overflows, and subtracts the infinity from itself. -/
theorem overflowFn_invoke (n : Number) (supply : Supply) :
    (overflowFn.invoke hosts [.number n] supply).1 = .ok (.number ((n + n) - (n + n))) := by
  simp [CompiledFn.invoke, overflowFn, overflow, doubledCode, call, checkParameters, firstMisfit?,
    Ty.accepts, CallStack.during, CallStack.enter, CallStack.new, CallStack.defaultLimit, exec,
    Activation.read, Activation.entry, Outcome.bind, Outcome.done, BinaryOp.arithmetic, Except.map]

/-- Of a number that is too large, both strategies make NaN, and are found to disagree. -/
theorem not_agrees_of_huge :
    overflow.compile {} = .ok (overflow.interpret {})
      ∧ overflow.compileFast {} true = .ok overflowFn
      ∧ ((overflow.interpret {}).invoke Hosts.standard [.number huge] {}).1
        = (overflowFn.invoke Hosts.standard [.number huge] {}).1
      ∧ (CompiledFn.compare Hosts.standard (overflow.interpret {}) overflowFn [.number huge]
        {}).1.agrees = false := by
  refine ⟨compile_overflow, compileFast_overflow, ?_, ?_⟩
  · rw [interpret_overflow_invoke, overflowFn_invoke]
  · have hnan : ((huge + huge) - (huge + huge)).value.isNaN = true := by decide
    rw [CompiledFn.compare]
    simp only [Comparison.agrees, interpret_overflow_invoke, overflowFn_invoke]
    show (((huge + huge) - (huge + huge) : Number) == (huge + huge) - (huge + huge)) = false
    -- twice the number is infinite, so the difference is NaN in both runs, and not equal to itself
    rw [Number.beq_self, hnan]
    rfl

end Lambda

end ExprTree
