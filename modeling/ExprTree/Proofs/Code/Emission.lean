import ExprTree.Proofs.Arena
import ExprTree.Proofs.Code.Translation
import ExprTree.Proofs.Tree.Reduction
import ExprTree.Proofs.Value.Parts

namespace ExprTree

/-!
# What emission gives

Emission goes through a tree with a state, and may stop with an error.
`Emit.Gives` says what holds of its outcome either way.  By `Expr.explained` the
known value that comes with the code is that of the reduced tree, and an error
means an extension node that folding leaves or a parameter without a slot.
-/

-- Emission is opened one node at a time.
attribute [grind =] Expr.emit Expr.emitAll

/-! ### Outcomes of emission -/

namespace Emit

variable {α β : Type} {state : EmitState} {Q : α → EmitState → Prop} {E : CompileError → Prop}

/-- What holds of a result with the state after it, or of the error. -/
def Gives (emit : Emit α) (state : EmitState) (Q : α → EmitState → Prop)
    (E : CompileError → Prop) : Prop :=
  match emit.run state with
  | (.ok a, after) => Q a after
  | (.error error, _) => E error

/-- Emission goes on after a success. -/
theorem run_bind_of_ok {emit : Emit α} {next : α → Emit β} {a : α} {after : EmitState}
    (h : emit.run state = (.ok a, after)) : (emit >>= next).run state = (next a).run after := by
  show ExceptT.bindCont next (emit.run state).1 (emit.run state).2 = _
  rw [h]
  rfl

/-- Emission ends with an error. -/
theorem run_bind_of_error {emit : Emit α} {next : α → Emit β} {error : CompileError}
    {after : EmitState} (h : emit.run state = (.error error, after)) :
    (emit >>= next).run state = (.error error, after) := by
  show ExceptT.bindCont next (emit.run state).1 (emit.run state).2 = _
  rw [h]
  rfl

theorem gives_pure {a : α} (h : Q a state) : Gives (pure a) state Q E := h

theorem gives_throw {error : CompileError} (h : E error) :
    Gives (throw error : Emit α) state Q E := h

/-- Emission goes on with the result and the state, or stops with the error. -/
theorem Gives.bind {emit : Emit α} {next : α → Emit β} {R : β → EmitState → Prop}
    {E' : CompileError → Prop} (h : emit.Gives state Q E)
    (hnext : ∀ a after, Q a after → (next a).Gives after R E') (hE : ∀ error, E error → E' error) :
    Gives (emit >>= next) state R E' := by
  unfold Gives at h ⊢
  split at h
  · rename_i a after hemit
    rw [run_bind_of_ok hemit]
    exact hnext a after h
  · rename_i error after hemit
    rw [run_bind_of_error hemit]
    exact hE error h

/-- What emission gives may be weakened. -/
theorem Gives.mono {emit : Emit α} {R : α → EmitState → Prop} {E' : CompileError → Prop}
    (h : emit.Gives state Q E) (hQ : ∀ a after, Q a after → R a after)
    (hE : ∀ error, E error → E' error) : emit.Gives state R E' := by
  unfold Gives at h ⊢
  split at h
  · exact hQ _ _ h
  · exact hE _ h

/-- Two properties of one outcome hold together. -/
theorem Gives.and {emit : Emit α} {R : α → EmitState → Prop} {E' : CompileError → Prop}
    (h : emit.Gives state Q E) (h' : emit.Gives state R E') :
    emit.Gives state (fun a after => Q a after ∧ R a after)
      (fun error => E error ∧ E' error) := by
  unfold Gives at h h' ⊢
  split at h <;> simp_all

/-- Counting and taking notes never fails, and leaves the pool alone. -/
theorem gives_visit {level : Nat} {next : Emit α}
    (h : ∀ after : EmitState, after.pool = state.pool → next.Gives after Q E) :
    Gives (do Emit.visit level; next) state Q E :=
  h _ rfl

/-- Laying out a lambda does not touch the pool. -/
theorem gives_layout {depth : Nat} {scope : Scope} {next : Emit α}
    (h : ∀ after : EmitState, after.pool = state.pool → next.Gives after Q E) :
    Gives (do Emit.layout depth scope; next) state Q E :=
  h _ rfl

/-- Counting a node that is folded leaves the pool alone. -/
theorem gives_countFolded {next : Emit α}
    (h : ∀ after : EmitState, after.pool = state.pool → next.Gives after Q E) :
    Gives (do Emit.countFolded; next) state Q E :=
  h _ rfl

/-- A literal is emitted with its type and as a known value. -/
theorem gives_literal {value : Value} {Q : Emitted → EmitState → Prop}
    (h : ∀ after : EmitState, after.pool = state.pool →
      Q ⟨.literal value, value.typeOf, some value⟩ after) :
    Gives (Emit.literal value) state Q E :=
  h _ rfl

/-- A node that is folded is emitted as the literal that it is folded to. -/
theorem gives_foldTo {value : Value} {Q : Emitted → EmitState → Prop}
    (h : ∀ after : EmitState, after.pool = state.pool →
      Q ⟨.literal value, value.typeOf, some value⟩ after) :
    Gives (Emit.foldTo value) state Q E :=
  h _ rfl

/-- The scope of a nested lambda is found or the error is passed on. -/
theorem gives_nested {lambda : Lambda Value} {parent : Scope} {next : Scope → Emit α}
    (hok : ∀ inner, Scope.nested lambda parent = .ok inner → (next inner).Gives state Q E)
    (herror : ∀ error, Scope.nested lambda parent = .error error → E error) :
    Gives (do let inner ← Scope.nested lambda parent; next inner) state Q E := by
  cases hnested : Scope.nested lambda parent with
  | error error => exact herror error hnested
  | ok inner => exact hok inner hnested

end Emit

/-! ### Scopes -/

namespace Scope

/-- Captures are the parameters asked for, each with its slot in the scope around,
    and only a parameter without a slot is an error. -/
theorem captureFrom_spec (parent : Scope) (index : Nat) (params : List Parameter) :
    match parent.captureFrom index params with
    | .ok captures => captures.map (·.1) = params
        ∧ ∀ capture ∈ captures, parent.resolve? capture.1 = some capture.2.source
    | .error _ => ∃ param ∈ params, parent.resolve? param = none := by
  induction params generalizing index with
  | nil => simp [captureFrom]
  | cons param rest ih =>
    rw [captureFrom]
    cases hsource : parent.resolve? param with
    | none => exact ⟨param, List.mem_cons_self .., hsource⟩
    | some source =>
      -- the first parameter has a slot, so an error is about one of the others
      have ih := ih (index + 1)
      cases hrest : parent.captureFrom (index + 1) rest with
      | error error =>
        rw [hrest] at ih
        obtain ⟨unknown, hmem, hnone⟩ := ih
        exact ⟨unknown, List.mem_cons_of_mem _ hmem, hnone⟩
      | ok captures =>
        rw [hrest] at ih
        exact ⟨congrArg (param :: ·) ih.1, List.forall_mem_cons.2 ⟨hsource, ih.2⟩⟩

variable {lambda : Lambda Value} {parent inner : Scope}

/-- A nested scope captures what the reduced lambda reads. -/
theorem nests_of_nested (h : nested lambda parent = .ok inner) :
    parent.Nests lambda.reduce inner := by
  have hspec := captureFrom_spec parent 0 lambda.freeParameters
  unfold nested at h
  cases hcaptures : parent.captureFrom 0 lambda.freeParameters with
  | error error =>
    rw [hcaptures] at h
    cases h
  | ok captures =>
    rw [hcaptures] at h hspec
    cases h
    refine ⟨rfl, hspec.2, fun param hparam => ?_⟩
    rw [hspec.1]
    exact Lambda.mem_freeParameters.2 hparam

/-- There is a nested scope unless the reduced lambda reads a parameter that has
    no slot around it. -/
theorem unresolved_of_nested {error : CompileError} (h : nested lambda parent = .error error) :
    ∃ param ∈ lambda.reduce.reads, parent.resolve? param = none := by
  have hspec := captureFrom_spec parent 0 lambda.freeParameters
  unfold nested at h
  cases hcaptures : parent.captureFrom 0 lambda.freeParameters with
  | error error =>
    rw [hcaptures] at hspec
    obtain ⟨param, hparam, hnone⟩ := hspec
    exact ⟨param, Lambda.mem_freeParameters.1 hparam, hnone⟩
  | ok captures =>
    rw [hcaptures] at h
    cases h

/-- What the lambda itself declares always has a slot. -/
theorem resolve?_ne_none_of_mem {scope : Scope} {param : Parameter}
    (h : param ∈ scope.params) : scope.resolve? param ≠ none := by
  unfold resolve?
  split
  · nofun
  · rename_i hindex
    exact absurd h (lastIndexOf?_eq_none.1 hindex)

/-- Inside a lambda everything that it reads and everything that it declares has a slot. -/
theorem Nests.resolves (h : parent.Nests lambda inner) {param : Parameter}
    (hparam : param ∈ lambda.body.reads) : inner.resolve? param ≠ none := by
  unfold resolve?
  cases hargs : lastIndexOf? param inner.params with
  | some index => simp
  | none =>
    rw [lastIndexOf?_eq_none, h.params] at hargs
    simp only [ne_eq, Option.map_eq_none_iff, lastIndexOf?_eq_none, not_not]
    exact h.covers param (Lambda.mem_reads.2 ⟨hparam, hargs⟩)

end Scope

/-! ### Known values and errors -/

/-- Why emission of a reduced tree stops: an extension node is left, or a parameter has no slot. -/
def Emit.Stops (fold : Bool) (scope : Scope) (expr : Expr Value) (error : CompileError) : Prop :=
  ((∃ what, error = .notSupported what) ∧ expr.KeepsExtension fold)
    ∨ ∃ param ∈ expr.reads, scope.resolve? param = none

namespace Emit.Stops

variable {fold : Bool} {scope : Scope} {expr sub : Expr Value} {error : CompileError}

/-- A node stops where an operand of it does. -/
theorem of_operand (h : Stops fold scope sub error) (hreads : sub.reads ⊆ expr.reads)
    (hkeeps : sub.KeepsExtension fold → expr.KeepsExtension fold) :
    Stops fold scope expr error := by
  rcases h with ⟨hwhat, hsub⟩ | ⟨param, hparam, hnone⟩
  · exact .inl ⟨hwhat, hkeeps hsub⟩
  · exact .inr ⟨param, hreads hparam, hnone⟩

/-- Inside a lambda no parameter lacks a slot. -/
theorem of_body {parent inner : Scope} {params : List Parameter} {body : Expr Value}
    (h : Stops fold inner body error) (hnests : parent.Nests ⟨params, body⟩ inner) :
    (∃ what, error = .notSupported what) ∧ body.KeepsExtension fold := by
  rcases h with h | ⟨param, hparam, hnone⟩
  · exact h
  · exact absurd hnone (hnests.resolves hparam)

end Emit.Stops

namespace Expr

variable {options : CompilerOptions}

/-- Looking at the left operand alone folds nothing but short circuits. -/
theorem folding_left (op : BinaryOp) (left : Option Value) :
    Emit.folding options (if op.isShortCircuit then op.fold? left none else none)
      = Emit.folding options (op.fold? left none) := by
  cases hop : op.isShortCircuit with
  | true => rfl
  | false => rw [BinaryOp.fold?_none hop, ite_self]

/-- Nothing is found when folding is off. -/
theorem folding_eq_some {α : Type} {found : Option α} {a : α} :
    Emit.folding options found = some a ↔ options.foldConstants = true ∧ found = some a := by
  simp only [Emit.folding, Option.ite_none_right_eq_some]

/-- How an invocation is emitted whose target is not a lambda. -/
theorem emit_invoke {target : Expr Value} (h : ∀ params body, target ≠ .lambda params body)
    (args : List (Expr Value)) (scope : Scope) (depth level : Nat) :
    (Expr.invoke target args).emit options scope depth level = do
      Emit.visit level
      let target ← target.emit options scope depth (level + 1)
      let args ← emitAll options scope depth (level + 1) args
      return ⟨.invoke target.code (args.map (·.code)), .any, none⟩ := by
  cases target with
  | lambda params body => exact absurd rfl (h params body)
  | _ => rfl

/-- Emission of a tree is explained by the reduced tree: the code comes with its
    known value and no extension node is left, or there is a reason to stop. -/
def Explained (options : CompilerOptions) (expr : Expr Value) : Prop :=
  ∀ scope depth level state, (expr.emit options scope depth level).Gives state
    (fun emitted _ => emitted.folded = expr.reduce.known? options.foldConstants
      ∧ ¬ expr.reduce.KeepsExtension options.foldConstants)
    (Emit.Stops options.foldConstants scope expr.reduce)

/-- Several trees stop where the first of them does. -/
theorem gives_emitAll {exprs : List (Expr Value)} (ih : ∀ expr ∈ exprs, expr.Explained options)
    (scope : Scope) (depth level : Nat) (state : EmitState) :
    (emitAll options scope depth level exprs).Gives state
      (fun _ _ => ∀ expr ∈ reduceAll exprs, ¬ expr.KeepsExtension options.foldConstants)
      (fun error => ∃ expr ∈ reduceAll exprs,
        Emit.Stops options.foldConstants scope expr error) := by
  induction exprs generalizing state with
  | nil => exact Emit.gives_pure (by simp [reduceAll])
  | cons expr rest ihrest =>
    rw [emitAll, reduceAll]
    -- the first operand may stop emission; if not, the others are emitted from the state it left
    have hhead := ih expr (List.mem_cons_self ..) scope depth level state
    refine hhead.bind (fun emitted after h => ?_) fun error h => ⟨_, List.mem_cons_self .., h⟩
    have hrest := ihrest (fun e he => ih e (List.mem_cons_of_mem _ he)) after
    refine hrest.bind (fun others after hrest => ?_) fun error herror => ?_
    · exact Emit.gives_pure (List.forall_mem_cons.2 ⟨h.2, hrest⟩)
    · obtain ⟨e, he, hstops⟩ := herror
      exact ⟨e, List.mem_cons_of_mem _ he, hstops⟩

namespace Explained

variable {params : List Parameter} {target operand left right test yes no body : Expr Value}
  {args : List (Expr Value)}

/-- A constant is known, unless it is a string or an object, which is pooled or embedded. -/
theorem constant {value : Value} : (Expr.constant value).Explained options := by
  intro scope depth level state
  rw [emit, reduce, known?]
  refine Emit.gives_visit fun after _ => ?_
  have hkeeps : ¬ (Expr.constant value).KeepsExtension options.foldConstants :=
    fun h => by cases h
  unfold Emit.constant
  split
  · exact Emit.gives_literal fun _ _ => ⟨rfl, hkeeps⟩
  · split
    · exact Emit.Gives.bind (Q := fun _ _ => True) trivial
        (fun index after _ => Emit.gives_pure ⟨rfl, hkeeps⟩) fun _ h => h
    · exact Emit.gives_pure ⟨rfl, hkeeps⟩

/-- A parameter is never known, and stops emission if it has no slot. -/
theorem parameter {param : Parameter} : (Expr.parameter param).Explained options := by
  intro scope depth level state
  rw [emit, reduce]
  refine Emit.gives_visit fun after _ => ?_
  split
  · exact Emit.gives_pure ⟨rfl, fun h => by cases h⟩
  · rename_i hnone
    exact Emit.gives_throw (.inr ⟨param, by simp [reads], hnone⟩)

/-- A new object is never known: each evaluation makes another one. -/
theorem new {cls : ClassDef} (h : ∀ arg ∈ args, arg.Explained options) :
    (Expr.new cls args).Explained options := by
  intro scope depth level state
  rw [emit, reduce]
  refine Emit.gives_visit fun after _ => ?_
  refine (gives_emitAll h scope depth (level + 1) after).bind (fun emitted after hargs => ?_)
    fun error herror => ?_
  · refine Emit.gives_pure ⟨rfl, fun hkeeps => ?_⟩
    cases hkeeps with
    | new harg hkeeps => exact hargs _ harg hkeeps
  · obtain ⟨arg, harg, hstops⟩ := herror
    exact hstops.of_operand (fun param hparam => mem_readsOfAll.2 ⟨arg, harg, hparam⟩)
      (.new harg)

/-- A field is never known, and emission stops where it stops for the object. -/
theorem field {name : String} (h : target.Explained options) :
    (Expr.field target name).Explained options := by
  intro scope depth level state
  rw [emit, reduce]
  refine Emit.gives_visit fun after _ => ?_
  refine (h scope depth (level + 1) after).bind (fun emitted after htarget => ?_)
    fun error hstops => hstops.of_operand (List.Subset.refl _) .field
  -- whether the field is found by its index or by its name makes no difference
  have hfolded : (emitField emitted name).folded = none := by
    unfold emitField
    split
    · split <;> rfl
    · rfl
  refine Emit.gives_pure ⟨hfolded, fun hkeeps => ?_⟩
  cases hkeeps with
  | field hkeeps => exact htarget.2 hkeeps

/-- A unary operator is known if its operand is, and the operator is defined there. -/
theorem unary {op : UnaryOp} (h : operand.Explained options) :
    (Expr.unary op operand).Explained options := by
  intro scope depth level state
  rw [emit, reduce]
  refine Emit.gives_visit fun after _ => ?_
  refine (h scope depth (level + 1) after).bind (fun emitted after hoperand => ?_)
    fun error hstops => ?_
  · have hknown : (Expr.unary op operand.reduce).known? options.foldConstants
        = Emit.folding options (op.fold? emitted.folded) := by
      rw [known?, hoperand.1, Emit.folding]
    split
    · rename_i value hfolded
      rw [hfolded] at hknown
      exact Emit.gives_foldTo fun _ _ =>
        ⟨hknown.symm, fun hkeeps => by simp [hkeeps.known?_eq_none] at hknown⟩
    · rename_i hfolded
      rw [hfolded] at hknown
      refine Emit.gives_pure ⟨hknown.symm, fun hkeeps => ?_⟩
      cases hkeeps with
      | unary _ hkeeps => exact hoperand.2 hkeeps
  · -- an extension node that is left in the operand is left in the node, as nothing about
    -- it is known
    refine hstops.of_operand (List.Subset.refl _) fun hkeeps => .unary ?_ hkeeps
    rw [known?, hkeeps.known?_eq_none, UnaryOp.fold?, ite_self]

/-- A binary operator is known if both operands are, or if the left one settles it.  In
    that case emission does not get to the right operand, and an extension node in it is
    left out. -/
theorem binary {op : BinaryOp} (hleft : left.Explained options) (hright : right.Explained options) :
    (Expr.binary op left right).Explained options := by
  intro scope depth level state
  rw [emit, reduce]
  refine Emit.gives_visit fun after _ => ?_
  refine (hleft scope depth (level + 1) after).bind (fun first after hfirst => ?_)
    fun error hstops => ?_
  · rw [folding_left]
    split
    · -- a short circuit that its left operand settles
      rename_i value hsettled
      obtain ⟨hfold, hsettled⟩ := folding_eq_some.1 hsettled
      have hknown : (Expr.binary op left.reduce right.reduce).known? options.foldConstants
          = some value := by
        rw [known?, if_pos hfold, ← hfirst.1, BinaryOp.fold?_of_left hsettled]
      exact Emit.gives_foldTo fun _ _ =>
        ⟨hknown.symm, fun hkeeps => by simp [hkeeps.known?_eq_none] at hknown⟩
    · -- otherwise the right operand is emitted, too
      rename_i hunsettled
      refine (hright scope depth (level + 1) after).bind (fun second after hsecond => ?_)
        fun error hstops => ?_
      · have hknown : (Expr.binary op left.reduce right.reduce).known? options.foldConstants
            = Emit.folding options (op.fold? first.folded second.folded) := by
          rw [known?, hfirst.1, hsecond.1, Emit.folding]
        split
        · rename_i value hfolded
          rw [hfolded] at hknown
          exact Emit.gives_foldTo fun _ _ =>
            ⟨hknown.symm, fun hkeeps => by simp [hkeeps.known?_eq_none] at hknown⟩
        · rename_i hfolded
          rw [hfolded] at hknown
          -- no value is known, so both operands are part of the code
          have hkeeps : ¬ (Expr.binary op left.reduce right.reduce).KeepsExtension
              options.foldConstants := by
            intro hkeeps
            cases hkeeps with
            | left _ hkeeps => exact hfirst.2 hkeeps
            | right _ hkeeps => exact hsecond.2 hkeeps
          split
          · exact Emit.gives_pure ⟨hknown.symm, hkeeps⟩
          · have hnone : (emitBinary op first second).folded = none := by
              unfold emitBinary
              split <;> rfl
            exact Emit.gives_pure ⟨hnone.trans hknown.symm, hkeeps⟩
      · refine hstops.of_operand (List.subset_append_right ..) fun hkeeps => .right ?_ hkeeps
        rw [known?, hkeeps.known?_eq_none, ← hfirst.1]
        exact hunsettled
  · refine hstops.of_operand (List.subset_append_left ..) fun hkeeps => .left ?_ hkeeps
    rw [known?, hkeeps.known?_eq_none, BinaryOp.fold?, ite_self]

/-- Of a conditional that is decided the branch that is taken is emitted. -/
theorem gives_taken {branch : Expr Value} {taken : Bool} (h : branch.Explained options)
    (hbranch : branch.reduce = if taken then yes.reduce else no.reduce)
    (hdecided : decided? options.foldConstants test.reduce = some taken)
    (scope : Scope) (depth level : Nat) (state : EmitState) :
    (branch.emit options scope depth level).Gives state
      (fun emitted _ => emitted.folded
          = (Expr.conditional test.reduce yes.reduce no.reduce).known? options.foldConstants
        ∧ ¬ (Expr.conditional test.reduce yes.reduce no.reduce).KeepsExtension
          options.foldConstants)
      (Emit.Stops options.foldConstants scope
        (.conditional test.reduce yes.reduce no.reduce)) := by
  refine (h scope depth level state).mono (fun emitted _ hemitted => ?_) fun error hstops => ?_
  · -- an extension node is left if it is in the branch that is taken
    rw [hbranch] at hemitted
    refine ⟨by rw [known?_of_decided hdecided, hemitted.1], fun hkeeps => hemitted.2 ?_⟩
    cases hkeeps with
    | test hnone _ => simp [hnone] at hdecided
    | yes hnot hkeeps => cases taken with
      | true => exact hkeeps
      | false => exact absurd hdecided hnot
    | no hnot hkeeps => cases taken with
      | true => exact absurd hdecided hnot
      | false => exact hkeeps
  · -- for the same reason an error about it is one about the node
    rw [hbranch] at hstops
    cases taken with
    | true =>
      exact hstops.of_operand (fun _ hparam => List.mem_append_left _
        (List.mem_append_right _ hparam)) (.yes (by simp [hdecided]))
    | false =>
      exact hstops.of_operand (List.subset_append_right ..) (.no (by simp [hdecided]))

/-- A conditional is the branch that is taken, if the condition is known, and otherwise it
    is not known itself. -/
theorem conditional (htest : test.Explained options) (hyes : yes.Explained options)
    (hno : no.Explained options) : (Expr.conditional test yes no).Explained options := by
  intro scope depth level state
  rw [emit, reduce]
  refine Emit.gives_visit fun after _ => ?_
  refine (htest scope depth (level + 1) after).bind (fun first after hfirst => ?_)
    fun error hstops => ?_
  · have hdecided : decided? options.foldConstants test.reduce
        = Emit.folding options (foldTest? first.folded) := by
      rw [decided?, hfirst.1, Emit.folding]
    split
    · rename_i htaken
      exact Emit.gives_countFolded fun after _ =>
        gives_taken hyes rfl (hdecided.trans htaken) scope depth (level + 1) after
    · rename_i htaken
      exact Emit.gives_countFolded fun after _ =>
        gives_taken hno rfl (hdecided.trans htaken) scope depth (level + 1) after
    · -- both branches are emitted
      rename_i hopen
      rw [hopen] at hdecided
      refine (hyes scope depth (level + 1) after).bind (fun second after hsecond => ?_)
        fun error hstops => hstops.of_operand (fun _ hparam => List.mem_append_left _
          (List.mem_append_right _ hparam)) (.yes (by simp [hdecided]))
      refine (hno scope depth (level + 1) after).bind (fun third after hthird => ?_)
        fun error hstops => hstops.of_operand (List.subset_append_right ..)
          (.no (by simp [hdecided]))
      refine Emit.gives_pure ⟨by rw [known?_eq_decided, hdecided], fun hkeeps => ?_⟩
      cases hkeeps with
      | test _ hkeeps => exact hfirst.2 hkeeps
      | yes _ hkeeps => exact hsecond.2 hkeeps
      | no _ hkeeps => exact hthird.2 hkeeps
  · refine hstops.of_operand (fun _ hparam => List.mem_append_left _
      (List.mem_append_left _ hparam)) fun hkeeps => .test ?_ hkeeps
    rw [decided?, hkeeps.known?_eq_none]
    exact ite_self _

/-- A lambda is never known.  Emission stops at it if its body stops, or if a parameter
    that it captures has no slot. -/
theorem lambda (h : body.Explained options) : (Expr.lambda params body).Explained options := by
  intro scope depth level state
  rw [emit, reduce]
  refine Emit.gives_visit fun after _ => ?_
  refine Emit.gives_nested (fun inner hinner => ?_)
    fun error herror => .inr (Scope.unresolved_of_nested herror)
  refine Emit.gives_layout fun after _ => ?_
  refine (h inner (depth + 1) (level + 1) after).bind (fun emitted after hbody => ?_)
    fun error hstops => ?_
  · refine Emit.gives_pure ⟨rfl, fun hkeeps => ?_⟩
    cases hkeeps with
    | lambda hkeeps => exact hbody.2 hkeeps
  · obtain ⟨hwhat, hkeeps⟩ := hstops.of_body (Scope.nests_of_nested hinner)
    exact .inl ⟨hwhat, .lambda hkeeps⟩

/-- An invocation stops where an argument does. -/
theorem stops_of_argument {scope : Scope} {error : CompileError}
    (h : ∃ arg ∈ reduceAll args, Emit.Stops options.foldConstants scope arg error) :
    Emit.Stops options.foldConstants scope (.invoke target (reduceAll args)) error := by
  obtain ⟨arg, harg, hstops⟩ := h
  exact hstops.of_operand
    (fun param hparam => List.mem_append_right _ (mem_readsOfAll.2 ⟨arg, harg, hparam⟩))
    (.arg harg)

/-- A lambda that is invoked at once is emitted in place. -/
theorem direct (hbody : body.Explained options) (h : ∀ arg ∈ args, arg.Explained options) :
    (Expr.invoke (.lambda params body) args).Explained options := by
  intro scope depth level state
  rw [emit, reduce, reduce]
  refine Emit.gives_visit fun after _ => ?_
  -- the lambda is entered first, then come its body and the arguments
  refine Emit.gives_nested (fun inner hinner => ?_) fun error herror => ?_
  · refine Emit.gives_layout fun after _ => ?_
    refine (hbody inner (depth + 1) (level + 1) after).bind (fun emitted after hemitted => ?_)
      fun error hstops => ?_
    · refine (gives_emitAll h scope depth (level + 1) after).bind
        (fun others after hargs => ?_) fun error => stops_of_argument
      refine Emit.gives_pure ⟨rfl, fun hkeeps => ?_⟩
      cases hkeeps with
      | target hkeeps => cases hkeeps with
        | lambda hkeeps => exact hemitted.2 hkeeps
      | arg harg hkeeps => exact hargs _ harg hkeeps
    · obtain ⟨hwhat, hkeeps⟩ := hstops.of_body (Scope.nests_of_nested hinner)
      exact .inl ⟨hwhat, .target (.lambda hkeeps)⟩
  · obtain ⟨param, hparam, hnone⟩ := Scope.unresolved_of_nested herror
    exact .inr ⟨param, List.mem_append_left _ hparam, hnone⟩

/-- An invocation is never known, and emission stops where it stops for the function or
    for an argument. -/
theorem invoke (hlambda : ∀ params body, target ≠ .lambda params body)
    (htarget : target.Explained options) (h : ∀ arg ∈ args, arg.Explained options) :
    (Expr.invoke target args).Explained options := by
  intro scope depth level state
  rw [emit_invoke hlambda, reduce]
  refine Emit.gives_visit fun after _ => ?_
  refine (htarget scope depth (level + 1) after).bind (fun emitted after hemitted => ?_)
    fun error hstops => hstops.of_operand (List.subset_append_left ..) .target
  refine (gives_emitAll h scope depth (level + 1) after).bind
    (fun others after hargs => ?_) fun error => stops_of_argument
  refine Emit.gives_pure ⟨rfl, fun hkeeps => ?_⟩
  cases hkeeps with
  | target hkeeps => exact hemitted.2 hkeeps
  | arg harg hkeeps => exact hargs _ harg hkeeps

/-- An extension node is emitted as what it reduces to, and stops emission if it reduces
    to nothing. -/
theorem extension {node : ExtensionNode Value} {operands : List (Expr Value)}
    {reduction : Option (Expr Value)} (h : ∀ reduced, reduction = some reduced →
      reduced.Explained options) : (Expr.extension node operands reduction).Explained options := by
  intro scope depth level state
  cases reduction with
  | none =>
    rw [emit, reduce]
    exact Emit.gives_visit fun after _ => Emit.gives_throw (.inl ⟨⟨_, rfl⟩, .here⟩)
  | some reduced =>
    rw [emit, reduce]
    exact Emit.gives_visit fun after _ => h reduced rfl scope depth (level + 1) after

end Explained

/-- **What is known about emitted code, and why emission stops.** -/
theorem explained (expr : Expr Value) : expr.Explained options := by
  induction expr with
  | constant value => exact .constant
  | parameter param => exact .parameter
  | new cls args ih => exact .new ih
  | field target name ih => exact .field ih
  | unary op operand ih => exact .unary ih
  | binary op left right ihl ihr => exact .binary ihl ihr
  | conditional test yes no iht ihy ihn => exact .conditional iht ihy ihn
  | lambda params body ih => exact .lambda ih
  | invoke target args iht ihb ih =>
    -- a lambda that is invoked directly is emitted together with the call
    obtain ⟨params, body, rfl⟩ | hlambda := target.lambda_or_ne
    · exact .direct (ihb params body rfl) ih
    · exact .invoke hlambda iht ih
  | extension node operands reduction ih ihr => exact .extension ihr

end Expr

/-! ### The pool -/

/-- A value that is interned stands at its position, where the arena and the value are coherent. -/
theorem Arena.intern_spec {values : Value → Prop} (hcoherent : Value.Coherent values)
    {arena : Arena Value} (harena : ∀ item ∈ arena.toList, values item) {value : Value}
    (hvalue : values value) (hprim : value.isPrimitive = false) :
    arena.toList <+: (arena.intern value).2.toList
      ∧ (∀ item ∈ (arena.intern value).2.toList, values item)
      ∧ (arena.intern value).2.toList[(arena.intern value).1]? = some value := by
  obtain ⟨index, ⟨⟨item, hitem, heq⟩, _⟩, hintern⟩ | ⟨_, hintern⟩ := arena.intern_cases value
  · rw [← getElem?_toList] at hitem
    -- an equal value was there before, and by coherence it is the same one
    have hmem : item ∈ arena.toList := List.mem_of_getElem? hitem
    have hsame := hcoherent.eq_of_beq (harena _ hmem) hvalue hprim heq
    rw [hintern]
    exact ⟨List.prefix_refl _, harena, hsame ▸ hitem⟩
  · have hsize : (arena.alloc value).1 = arena.toList.length := (length_toList arena).symm
    rw [hintern, hsize, toList_alloc]
    refine ⟨List.prefix_append _ _, ?_, by simp⟩
    simp only [List.mem_append, List.mem_singleton]
    rintro v (hv | rfl)
    · exact harena v hv
    · exact hvalue

end ExprTree
