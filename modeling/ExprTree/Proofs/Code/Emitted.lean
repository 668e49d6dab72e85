import ExprTree.Proofs.Code.Emission
import ExprTree.Proofs.Value.Soundness

namespace ExprTree

/-!
# Emitted code

Emission gives a translation of the reduced tree (`Expr.translated`).  The
pool only grows while a tree is emitted, so what was translated with the pool at
some moment is translated with the table of constants of the whole function.

`Lambda.denotes_of_emit` is what this comes to for a whole function: it denotes
the reduced lambda.
-/

/-- A pool grows, by values of a kind. -/
structure Arena.Extends (values : Value → Prop) (pool after : Arena Value) : Prop where
  grows : pool.toList <+: after.toList
  values : ∀ item ∈ after.toList, values item

namespace Arena.Extends

variable {values : Value → Prop} {pool after last : Arena Value}

theorem refl (h : ∀ item ∈ pool.toList, values item) : pool.Extends values pool :=
  ⟨List.prefix_refl _, h⟩

theorem trans (h : pool.Extends values after) (h' : after.Extends values last) :
    pool.Extends values last :=
  ⟨h.grows.trans h'.grows, h'.values⟩

end Arena.Extends

/-- The code that was emitted translates a tree, whatever is added to the pool
    later; the pool holds values of one kind. -/
def Emitted.Translates (values : Value → Prop) (state : EmitState) (scope : Scope)
    (expr : Expr Value) (emitted : Emitted) (after : EmitState) : Prop :=
  state.pool.Extends values after.pool
    ∧ ∀ constants, after.pool.toList <+: constants →
      ExprTree.Translates constants scope expr emitted.code emitted.ty

/-! ### Nodes -/

section

variable {constants : List Value} {scope : Scope}

/-- A constructor loses its checks only where the inferred types make up for them. -/
theorem translates_emitNew {cls : ClassDef} {args : List (Expr Value)} {emitted : List Emitted}
    (h : TranslatesAll constants scope args emitted) :
    Translates constants scope (.new cls args) (emitNew cls emitted).code
      (emitNew cls emitted).ty := by
  unfold emitNew
  dsimp only
  split
  · rename_i hexact
    rw [Bool.and_eq_true, beq_iff_eq, List.all_eq_true] at hexact
    refine .construct h (List.forall₂_iff_zip.2 ⟨hexact.1.symm, fun {field e} hmem => ?_⟩)
    exact hexact.2 (field, e) hmem
  · exact .instantiate h

/-- Reading a field is translated by its index where the class is known, and by its name
    otherwise. -/
theorem translates_emitField {target : Expr Value} {emitted : Emitted} {name : String}
    (h : Translates constants scope target emitted.code emitted.ty) :
    Translates constants scope (.field target name) (emitField emitted name).code
      (emitField emitted name).ty := by
  unfold emitField
  split
  · rename_i cls hty
    rw [hty] at h
    split
    · rename_i index field hfield
      exact .fieldAt h hfield
    · exact .field h
  · exact .field h

/-- An operator on two numbers that is an arithmetic one is translated without a check of
    its operands, and any other with it. -/
theorem translates_emitBinary {op : BinaryOp} (hop : op.isShortCircuit = false)
    {left right : Expr Value} {first second : Emitted}
    (hleft : Translates constants scope left first.code first.ty)
    (hright : Translates constants scope right second.code second.ty) :
    Translates constants scope (.binary op left right) (emitBinary op first second).code
      (emitBinary op first second).ty := by
  unfold emitBinary
  dsimp only
  split
  · rename_i hnumbers
    obtain ⟨hfirst, hsecond, harith⟩ := hnumbers
    rw [hfirst] at hleft
    rw [hsecond] at hright
    rw [hfirst, hsecond, BinaryOp.resultTy?_number harith]
    -- the types of the operands are what lets the check be left out
    exact .arithmetic harith hleft hright
  · exact .binary hop hleft hright

end

section

variable {values : Value → Prop} {scope : Scope} {expr : Expr Value} {state start : EmitState}
  {next : Emit Emitted}

/-- A step that leaves the pool as it is comes before what translates. -/
theorem translates_of_pool_eq (hstart : start.pool = state.pool)
    (h : next.Gives start (Emitted.Translates values start scope expr) fun _ => True) :
    next.Gives start (Emitted.Translates values state scope expr) fun _ => True := by
  unfold Emitted.Translates at h ⊢
  rwa [hstart] at h

/-- Visiting a node leaves the pool alone, so it is enough that what comes after the visit
    gives a translation. -/
theorem translates_visit {level : Nat} (hpool : ∀ item ∈ state.pool.toList, values item)
    (h : ∀ start : EmitState, (∀ item ∈ start.pool.toList, values item) →
      next.Gives start (Emitted.Translates values start scope expr) fun _ => True) :
    Emit.Gives (do Emit.visit level; next) state (Emitted.Translates values state scope expr)
      fun _ => True := by
  refine Emit.gives_visit fun start hstart => translates_of_pool_eq hstart (h start ?_)
  rwa [hstart]

/-- Inside a lambda emission goes on in the nested scope. -/
theorem translates_nested {params : List Parameter} {body : Expr Value} {depth : Nat}
    {next : Scope → Emit Emitted} (hpool : ∀ item ∈ state.pool.toList, values item)
    (h : ∀ inner (start : EmitState), scope.Nests ⟨params, body.reduce⟩ inner →
      (∀ item ∈ start.pool.toList, values item) →
      (next inner).Gives start (Emitted.Translates values start scope expr) fun _ => True) :
    Emit.Gives (do
      let inner ← Scope.nested ⟨params, body⟩ scope
      Emit.layout depth inner
      next inner) state (Emitted.Translates values state scope expr) fun _ => True := by
  refine Emit.gives_nested (fun inner hinner => ?_) fun _ _ => trivial
  refine Emit.gives_layout fun start hstart => translates_of_pool_eq hstart
    (h inner start (Scope.nests_of_nested hinner) ?_)
  rwa [hstart]

/-- A value that folding finds is a translation of the tree. -/
theorem translates_foldTo {value : Value} (hextends : state.pool.Extends values start.pool)
    (hknown : expr.known? true = some value) :
    (Emit.foldTo value).Gives start (Emitted.Translates values state scope expr)
      fun _ => True := by
  refine Emit.gives_foldTo fun last hlast => ?_
  unfold Emitted.Translates
  rw [hlast]
  exact ⟨hextends, fun _ _ => .literal hknown⟩

end

namespace Expr

variable {options : CompilerOptions} {values : Value → Prop}

/-- Emission of a tree gives a translation of the reduced tree, whatever values of
    the kind the pool holds before. -/
def Translated (options : CompilerOptions) (values : Value → Prop) (expr : Expr Value) : Prop :=
  ∀ scope depth level (state : EmitState), (∀ item ∈ state.pool.toList, values item) →
    (expr.emit options scope depth level).Gives state
      (Emitted.Translates values state scope expr.reduce) fun _ => True

/-- Operands are translated one by one, with what each of them adds to the pool. -/
theorem translates_emitAll {exprs : List (Expr Value)}
    (ih : ∀ expr ∈ exprs, expr.Translated options values)
    (scope : Scope) (depth level : Nat) (state : EmitState)
    (hpool : ∀ item ∈ state.pool.toList, values item) :
    (emitAll options scope depth level exprs).Gives state
      (fun emitted after => state.pool.Extends values after.pool
        ∧ ∀ constants, after.pool.toList <+: constants →
          TranslatesAll constants scope (reduceAll exprs) emitted) fun _ => True := by
  induction exprs generalizing state with
  | nil => exact Emit.gives_pure ⟨.refl hpool, fun _ _ => .nil⟩
  | cons expr rest ihrest =>
    rw [emitAll, reduceAll]
    have hhead := ih expr (List.mem_cons_self ..) scope depth level state hpool
    refine hhead.bind (fun emitted after h => ?_) fun _ _ => trivial
    have hrest := ihrest (fun e he => ih e (List.mem_cons_of_mem _ he)) after h.1.values
    refine hrest.bind (fun others last hrest => ?_) fun _ _ => trivial
    -- the first operand was translated with a smaller pool, which the others only extended
    exact Emit.gives_pure ⟨h.1.trans hrest.1, fun constants hconstants =>
      .cons (h.2 constants (hrest.1.grows.trans hconstants)) (hrest.2 constants hconstants)⟩

namespace Translated

variable {params : List Parameter} {target operand left right test yes no body : Expr Value}
  {args : List (Expr Value)}

/-- A primitive is translated into a literal.  Any other constant is put into the pool, or
    into the code itself if constants are not hoisted. -/
theorem constant (hcoherent : Value.Coherent values) {value : Value} (hvalue : values value) :
    (Expr.constant value).Translated options values := by
  intro scope depth level state hpool
  rw [emit, reduce]
  refine translates_visit hpool fun start hpool => ?_
  unfold Emit.constant
  split
  · rename_i hprim
    refine Emit.gives_literal fun after hafter => ?_
    have hextends : start.pool.Extends values after.pool := by
      rw [hafter]
      exact .refl hpool
    exact ⟨hextends, fun _ _ => .literal (by simp [known?, hprim])⟩
  · rename_i hprim
    rw [Bool.not_eq_true] at hprim
    split
    · -- the value goes to the pool, where it may stand already
      obtain ⟨hgrows, hvalues, hget⟩ := Arena.intern_spec hcoherent hpool hvalue hprim
      refine Emit.Gives.bind (E := fun _ => True)
        (Q := fun index after => after.pool = (start.pool.intern value).2
          ∧ index = (start.pool.intern value).1) ⟨rfl, rfl⟩
        (fun index after h => ?_) fun _ _ => trivial
      refine Emit.gives_pure ?_
      unfold Emitted.Translates
      rw [h.1, h.2]
      refine ⟨⟨hgrows, hvalues⟩, fun constants hconstants => .pooled ?_⟩
      -- where the value stands in the pool it stands in the final table, too
      obtain ⟨hlt, heq⟩ := List.getElem?_eq_some_iff.1 hget
      rw [List.prefix_iff_getElem?.1 hconstants _ hlt, heq]
    · exact Emit.gives_pure ⟨.refl hpool, fun _ _ => .embedded⟩

/-- A parameter is translated into the slot that its scope has for it. -/
theorem parameter {param : Parameter} : (Expr.parameter param).Translated options values := by
  intro scope depth level state hpool
  rw [emit, reduce]
  refine translates_visit hpool fun start hpool => ?_
  split
  · rename_i slot hslot
    exact Emit.gives_pure ⟨.refl hpool, fun _ _ => .slot hslot⟩
  · exact Emit.gives_throw trivial

/-- A new object is translated with its arguments. -/
theorem new {cls : ClassDef} (h : ∀ arg ∈ args, arg.Translated options values) :
    (Expr.new cls args).Translated options values := by
  intro scope depth level state hpool
  rw [emit, reduce]
  refine translates_visit hpool fun start hpool => ?_
  refine (translates_emitAll h scope depth (level + 1) start hpool).bind
    (fun emitted after hargs => ?_) fun _ _ => trivial
  exact Emit.gives_pure ⟨hargs.1, fun constants hconstants =>
    translates_emitNew (hargs.2 constants hconstants)⟩

/-- Reading a field is translated with the object that it is read from. -/
theorem field {name : String} (h : target.Translated options values) :
    (Expr.field target name).Translated options values := by
  intro scope depth level state hpool
  rw [emit, reduce]
  refine translates_visit hpool fun start hpool => ?_
  refine (h scope depth (level + 1) start hpool).bind
    (fun emitted after htarget => ?_) fun _ _ => trivial
  exact Emit.gives_pure ⟨htarget.1, fun constants hconstants =>
    translates_emitField (htarget.2 constants hconstants)⟩

/-- A unary operator is translated into the literal that it is folded to, or with its operand. -/
theorem unary {op : UnaryOp} (h : operand.Translated options values) :
    (Expr.unary op operand).Translated options values := by
  intro scope depth level state hpool
  rw [emit, reduce]
  refine translates_visit hpool fun start hpool => ?_
  refine ((h scope depth (level + 1) start hpool).and
    (explained operand scope depth (level + 1) start)).bind
    (fun emitted after hemitted => ?_) fun _ _ => trivial
  obtain ⟨⟨hextends, htranslates⟩, hfolded, _⟩ := hemitted
  -- what folding finds is the known value of the reduced tree, which a literal stands for
  split
  · rename_i value hvalue
    obtain ⟨hfold, hvalue⟩ := folding_eq_some.1 hvalue
    rw [hfolded, hfold] at hvalue
    exact translates_foldTo hextends (known?_unary.trans hvalue)
  · exact Emit.gives_pure ⟨hextends, fun constants hconstants =>
      .unary (htranslates constants hconstants)⟩

/-- A binary operator is translated into the literal that it is folded to, by its left
    operand alone or by both, or with its operands. -/
theorem binary {op : BinaryOp} (hleft : left.Translated options values)
    (hright : right.Translated options values) :
    (Expr.binary op left right).Translated options values := by
  intro scope depth level state hpool
  rw [emit, reduce]
  refine translates_visit hpool fun start hpool => ?_
  refine ((hleft scope depth (level + 1) start hpool).and
    (explained left scope depth (level + 1) start)).bind
    (fun first after hfirst => ?_) fun _ _ => trivial
  obtain ⟨⟨hextends, hleft⟩, hfirst, _⟩ := hfirst
  rw [folding_left]
  split
  · rename_i value hvalue
    obtain ⟨hfold, hvalue⟩ := folding_eq_some.1 hvalue
    rw [hfirst, hfold] at hvalue
    exact translates_foldTo hextends (known?_binary.trans (BinaryOp.fold?_of_left hvalue _))
  · refine ((hright scope depth (level + 1) after hextends.values).and
      (explained right scope depth (level + 1) after)).bind
      (fun second last hsecond => ?_) fun _ _ => trivial
    obtain ⟨⟨hextends', hright⟩, hsecond, _⟩ := hsecond
    have hboth := hextends.trans hextends'
    split
    · -- both operands are known
      rename_i value hvalue
      obtain ⟨hfold, hvalue⟩ := folding_eq_some.1 hvalue
      rw [hfirst, hsecond, hfold] at hvalue
      exact translates_foldTo hboth (known?_binary.trans hvalue)
    · -- the pool has grown since the left operand was emitted
      have hleft : ∀ constants, last.pool.toList <+: constants →
          Translates constants scope left.reduce first.code first.ty := fun constants hconstants =>
        hleft constants (hextends'.grows.trans hconstants)
      split
      · rename_i hop
        exact Emit.gives_pure ⟨hboth, fun constants hconstants =>
          .shortCircuit hop (hleft constants hconstants) (hright constants hconstants)⟩
      · rename_i hop
        rw [Bool.not_eq_true] at hop
        exact Emit.gives_pure ⟨hboth, fun constants hconstants =>
          translates_emitBinary hop (hleft constants hconstants) (hright constants hconstants)⟩

/-- Of a conditional with a known test the branch that is taken is emitted. -/
theorem taken {branch : Expr Value} {taken : Bool} (h : branch.Translated options values)
    (hbranch : branch.reduce = if taken then yes.reduce else no.reduce)
    (htest : test.reduce.known? true = some (.bool taken)) {scope : Scope} {depth level : Nat}
    {state after : EmitState} (hextends : state.pool.Extends values after.pool) :
    Emit.Gives (do Emit.countFolded; branch.emit options scope depth level) after
      (Emitted.Translates values state scope
        (.conditional test.reduce yes.reduce no.reduce)) fun _ => True := by
  refine Emit.gives_countFolded fun next hnext => ?_
  rw [← hnext] at hextends
  refine (h scope depth level next hextends.values).mono (fun emitted last hemitted => ?_)
    fun _ _ => trivial
  refine ⟨hextends.trans hemitted.1, fun constants hconstants => .taken htest ?_⟩
  rw [← hbranch]
  exact hemitted.2 constants hconstants

/-- A conditional is translated into the branch that is taken, if its condition is known,
    or with all three parts. -/
theorem conditional (htest : test.Translated options values)
    (hyes : yes.Translated options values) (hno : no.Translated options values) :
    (Expr.conditional test yes no).Translated options values := by
  intro scope depth level state hpool
  rw [emit, reduce]
  refine translates_visit hpool fun start hpool => ?_
  refine ((htest scope depth (level + 1) start hpool).and
    (explained test scope depth (level + 1) start)).bind
    (fun first after hfirst => ?_) fun _ _ => trivial
  obtain ⟨⟨hextends, htest⟩, hfirst, _⟩ := hfirst
  have hknown : ∀ taken, Emit.folding options (foldTest? first.folded) = some taken →
      test.reduce.known? true = some (.bool taken) := by
    intro taken htaken
    obtain ⟨hfold, htaken⟩ := folding_eq_some.1 htaken
    rw [hfirst, hfold] at htaken
    exact foldTest?_eq_some.1 htaken
  split
  · rename_i htaken
    exact hyes.taken rfl (hknown true htaken) hextends
  · rename_i htaken
    exact hno.taken rfl (hknown false htaken) hextends
  · refine (hyes scope depth (level + 1) after hextends.values).bind
      (fun second next hsecond => ?_) fun _ _ => trivial
    refine (hno scope depth (level + 1) next hsecond.1.values).bind
      (fun third last hthird => ?_) fun _ _ => trivial
    refine Emit.gives_pure ⟨hextends.trans (hsecond.1.trans hthird.1), ?_⟩
    intro constants hconstants
    -- each part was translated with the pool of its time, and all of these grew into the
    -- final table
    have hnext := hthird.1.grows.trans hconstants
    have hafter := hsecond.1.grows.trans hnext
    exact .conditional (htest constants hafter) (hsecond.2 constants hnext)
      (hthird.2 constants hconstants)

/-- A lambda is translated into a closure over what its scope captures. -/
theorem lambda (h : body.Translated options values) :
    (Expr.lambda params body).Translated options values := by
  intro scope depth level state hpool
  rw [emit, reduce]
  refine translates_visit hpool fun start hpool => ?_
  refine translates_nested hpool fun inner start hnests hpool => ?_
  refine (h inner (depth + 1) (level + 1) start hpool).bind
    (fun emitted last hemitted => ?_) fun _ _ => trivial
  refine Emit.gives_pure ⟨hemitted.1, fun constants hconstants => ?_⟩
  rw [emitClosure, hnests.params]
  exact .closure hnests (hemitted.2 constants hconstants)

/-- A lambda that is invoked at once keeps its type. -/
theorem direct (hbody : body.Translated options values)
    (h : ∀ arg ∈ args, arg.Translated options values) :
    (Expr.invoke (.lambda params body) args).Translated options values := by
  intro scope depth level state hpool
  rw [emit, reduce, reduce]
  refine translates_visit hpool fun start hpool => ?_
  refine translates_nested hpool fun inner start hnests hpool => ?_
  refine (hbody inner (depth + 1) (level + 1) start hpool).bind
    (fun emitted next hemitted => ?_) fun _ _ => trivial
  refine (translates_emitAll h scope depth (level + 1) next hemitted.1.values).bind
    (fun others last hargs => ?_) fun _ _ => trivial
  -- the arguments come after the body, and may extend the pool that it was translated with
  refine Emit.gives_pure ⟨hemitted.1.trans hargs.1, fun constants hconstants => ?_⟩
  rw [emitClosure, hnests.params]
  exact .direct hnests (hemitted.2 constants (hargs.1.grows.trans hconstants))
    (hargs.2 constants hconstants)

/-- An invocation is translated with the function and the arguments. -/
theorem invoke (hlambda : ∀ params body, target ≠ .lambda params body)
    (htarget : target.Translated options values)
    (h : ∀ arg ∈ args, arg.Translated options values) :
    (Expr.invoke target args).Translated options values := by
  intro scope depth level state hpool
  rw [emit_invoke hlambda, reduce]
  refine translates_visit hpool fun start hpool => ?_
  refine (htarget scope depth (level + 1) start hpool).bind
    (fun emitted next hemitted => ?_) fun _ _ => trivial
  refine (translates_emitAll h scope depth (level + 1) next hemitted.1.values).bind
    (fun others last hargs => ?_) fun _ _ => trivial
  exact Emit.gives_pure ⟨hemitted.1.trans hargs.1, fun constants hconstants =>
    .invoke (hemitted.2 constants (hargs.1.grows.trans hconstants))
      (hargs.2 constants hconstants)⟩

/-- An extension node is translated as what it reduces to. -/
theorem extension {node : ExtensionNode Value} {operands : List (Expr Value)}
    {reduction : Option (Expr Value)}
    (h : ∀ reduced, reduction = some reduced → reduced.Translated options values) :
    (Expr.extension node operands reduction).Translated options values := by
  intro scope depth level state hpool
  cases reduction with
  | none =>
    rw [emit]
    exact Emit.gives_visit fun start hstart => Emit.gives_throw trivial
  | some reduced =>
    rw [emit, reduce]
    exact translates_visit hpool fun start hpool =>
      h reduced rfl scope depth (level + 1) start hpool

end Translated

/-- **Emission translates the reduced tree.** -/
theorem translated (hcoherent : Value.Coherent values) (expr : Expr Value)
    (hliterals : ∀ c ∈ expr.literals, values c) : expr.Translated options values := by
  induction expr with
  | constant value => exact .constant hcoherent (hliterals value (by simp [literals]))
  | parameter param => exact .parameter
  | new cls args ih =>
    exact .new fun arg harg => ih arg harg fun c hc =>
      hliterals c (mem_literalsOfAll.2 ⟨arg, harg, hc⟩)
  | field target name ih => exact .field (ih hliterals)
  | unary op operand ih => exact .unary (ih hliterals)
  | binary op left right ihl ihr =>
    obtain ⟨hleft, hright⟩ := List.forall_mem_append.1 hliterals
    exact .binary (ihl hleft) (ihr hright)
  | conditional test yes no iht ihy ihn =>
    rw [literals, List.forall_mem_append, List.forall_mem_append] at hliterals
    exact .conditional (iht hliterals.1.1) (ihy hliterals.1.2) (ihn hliterals.2)
  | lambda params body ih => exact .lambda (ih hliterals)
  | invoke target args iht ihb ih =>
    obtain ⟨htarget, hargs⟩ := List.forall_mem_append.1 hliterals
    have hargs : ∀ arg ∈ args, arg.Translated options values := fun arg harg =>
      ih arg harg fun c hc => hargs c (mem_literalsOfAll.2 ⟨arg, harg, hc⟩)
    -- a lambda that is invoked directly is translated with the call
    obtain ⟨params, body, rfl⟩ | hlambda := target.lambda_or_ne
    · exact .direct (ihb params body rfl htarget) hargs
    · exact .invoke hlambda (iht htarget) hargs
  | extension node operands reduction ih ihr =>
    refine .extension fun reduced hreduced => ihr reduced hreduced fun c hc => hliterals c ?_
    rw [hreduced, literals]
    exact List.mem_append_right _ hc

end Expr

/-! ### Constants in the code -/

/-- If what stands in two pieces of code comes from two trees, apart from
    primitives, then so does what stands in both. -/
theorem primitive_or_mem_append {literals literals' ofTree ofTree' : List Value}
    (h : ∀ c ∈ literals, c.isPrimitive = true ∨ c ∈ ofTree)
    (h' : ∀ c ∈ literals', c.isPrimitive = true ∨ c ∈ ofTree') :
    ∀ c ∈ literals ++ literals', c.isPrimitive = true ∨ c ∈ ofTree ++ ofTree' := by
  intro c hc
  rcases List.mem_append.1 hc with hc | hc
  · exact (h c hc).imp_right (List.mem_append_left _)
  · exact (h' c hc).imp_right (List.mem_append_right _)

/-- What stands in the code of several trees stands in one of the trees, or was found by folding. -/
theorem mem_literalsOfAll_emitted {args : List (Expr Value)} {emitted : List Emitted}
    (ih : List.Forall₂ (fun arg (e : Emitted) => ∀ c ∈ e.code.literals,
      c.isPrimitive = true ∨ c ∈ arg.literals) args emitted) :
    ∀ c ∈ Code.literalsOfAll (emitted.map (·.code)),
      c.isPrimitive = true ∨ c ∈ Expr.literalsOfAll args := by
  induction ih with
  | nil => simp [Code.literalsOfAll]
  | cons hhead _ ihrest =>
    rw [List.map_cons, Code.literalsOfAll, Expr.literalsOfAll]
    exact primitive_or_mem_append hhead ihrest

/-- What stands in the code stands in the tree, or is a primitive. -/
theorem Translates.mem_literals {constants : List Value} {scope : Scope} {expr : Expr Value}
    {code : Code Value} {ty : Ty} (h : Translates constants scope expr code ty) :
    ∀ c ∈ code.literals, c.isPrimitive = true ∨ c ∈ expr.literals := by
  refine Translates.inductionOn ?literal ?embedded ?pooled ?slot ?instantiate ?construct ?field
    ?fieldAt ?unary ?shortCircuit ?binary ?arithmetic ?conditional ?taken ?closure ?direct ?invoke h
  case literal =>
    intro scope expr value hknown c hc
    rw [Code.literals, List.mem_singleton] at hc
    exact .inl (hc ▸ Expr.isPrimitive_of_known? hknown)
  case embedded =>
    intro scope value c hc
    exact .inr hc
  case pooled | slot =>
    intros
    simp_all [Code.literals]
  case instantiate =>
    intro scope cls args emitted ih
    exact mem_literalsOfAll_emitted ih
  case construct =>
    intro scope cls args emitted ih _
    exact mem_literalsOfAll_emitted ih
  case field =>
    intro scope target code ty name ih
    exact ih
  case fieldAt =>
    intro scope target code cls name index field ih _
    exact ih
  case unary =>
    intro scope op operand code ty ih
    exact ih
  case shortCircuit | binary =>
    intro scope op left right leftCode rightCode leftTy rightTy _ ihl ihr
    exact primitive_or_mem_append ihl ihr
  case arithmetic =>
    intro scope op left right leftCode rightCode _ ihl ihr
    exact primitive_or_mem_append ihl ihr
  case conditional =>
    intro scope test yes no testCode yesCode noCode testTy yesTy noTy iht ihy ihn
    exact primitive_or_mem_append (primitive_or_mem_append iht ihy) ihn
  case taken =>
    intro scope test yes no taken code ty _ ih c hc
    rw [Expr.literals, List.append_assoc]
    refine (ih c hc).imp_right fun h => List.mem_append_right _ ?_
    -- only the branch that is taken is left in the code
    cases taken with
    | true => exact List.mem_append_left _ h
    | false => exact List.mem_append_right _ h
  case closure =>
    intro scope params body inner code ty _ _ ih
    exact ih
  case direct =>
    intro scope params body args inner code ty emitted _ _ ih ihargs
    exact primitive_or_mem_append ih (mem_literalsOfAll_emitted ihargs)
  case invoke =>
    intro scope target args code ty emitted ih ihargs
    exact primitive_or_mem_append ih (mem_literalsOfAll_emitted ihargs)

/-! ### Functions -/

namespace Lambda

variable {lambda : Lambda Value} {options : CompilerOptions} {callable : Callable Value}
  {plan : Plan}

/-- The body of a lambda, emitted where nothing is captured. -/
def emitRoot (lambda : Lambda Value) (options : CompilerOptions) : Emit Emitted := do
  Emit.layout 0 ⟨lambda.params, []⟩
  lambda.body.emit options ⟨lambda.params, []⟩ 1 0

/-- A lambda is emitted when it captures nothing and its body is emitted. -/
theorem emit_eq (lambda : Lambda Value) (options : CompilerOptions) :
    lambda.emit options =
      match lambda.freeParameters with
      | param :: _ => .error (.unboundParameter param.name)
      | [] =>
        match (lambda.emitRoot options).run {} with
        | (.error error, _) => .error error
        | (.ok body, state) =>
          .ok (.compiled lambda.params body.code [] state.pool.toList, state.plan) := by
  unfold emit emitBody Scope.root
  -- the root scope has nothing to capture from, so a free parameter stops emission at once
  cases lambda.freeParameters with
  | cons param rest => rfl
  | nil =>
    have hroot : (do let scope ← (.ok ⟨lambda.params, []⟩ : Except CompileError Scope)
                     Emit.layout 0 scope
                     lambda.body.emit options scope 1 0) = lambda.emitRoot options := rfl
    rw [hroot]
    rcases (lambda.emitRoot options).run {} with ⟨_ | _, state⟩ <;> rfl

/-- **Emitted functions denote the reduced lambda.** -/
theorem denotes_of_emit {values : Value → Prop} (hcoherent : Value.Coherent values)
    (hliterals : ∀ c ∈ lambda.literals, values c)
    (h : lambda.emit options = .ok (callable, plan)) :
    callable.Denotes lambda.reduce (Valuation.captured [] [])
      ∧ ∀ part ∈ callable.parts, part.isPrimitive = true ∨ values part := by
  have hgives : (lambda.emitRoot options).Gives {}
      (Emitted.Translates values {} ⟨lambda.params, []⟩ lambda.body.reduce) fun _ => True := by
    refine Emit.gives_layout fun start hstart => translates_of_pool_eq hstart ?_
    exact Expr.translated hcoherent lambda.body hliterals _ 1 0 start
      (by simp [hstart, Arena.toList])
  rw [emit_eq] at h
  split at h
  · cases h
  · unfold Emit.Gives at hgives
    split at h
    · cases h
    · rename_i body state hbody
      rw [hbody] at hgives
      obtain ⟨hextends, htranslates⟩ := hgives
      have htranslates := htranslates state.pool.toList (List.prefix_refl _)
      cases h
      have hdenotes : Callable.Denotes (.compiled lambda.params body.code [] state.pool.toList)
          lambda.reduce (Valuation.captured [] []) := .compiled htranslates .nil
      refine ⟨hdenotes, fun part hpart => ?_⟩
      rw [Callable.parts, List.append_nil, List.mem_append] at hpart
      -- a part is a literal of the code, or stands in the table
      rcases hpart with hpart | hpart
      · exact (htranslates.mem_literals part hpart).imp_right fun hpart =>
          hliterals part (Expr.literals_reduce _ hpart)
      · exact .inr (hextends.values part hpart)

end Lambda

end ExprTree
