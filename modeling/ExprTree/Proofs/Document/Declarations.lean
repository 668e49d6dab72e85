import ExprTree.Proofs.Document.Resolution

namespace ExprTree

/-!
# What a document declares

Classes and constants are loaded one after the other, and each of them sees those before
it.

* `classFaults`, `ConstantDecl.faults` — what is wrong with the names in a declaration;
* `ConstantDecl.Evaluates`, `ConstantDecl.Fails` — a constant without such faults is compiled
  and evaluated, which may still fail;
* `Evaluated` — the constants of a list of declarations have their values;
* `Reached` — loading has come to a constant: all classes are there, and the constants
  before it.

`outcome_load` and `outcome_load_eq_error_iff` say what loading a document comes to.
-/

namespace Document

variable {hosts : Hosts} {names : Names} {classes constants : List String}
  {supply after : Supply}

/-! ### Classes -/

/-- What is wrong with a class behind other ones: its name, and then the types of its fields. -/
def ClassDecl.faults (classes : List String) (decl : ClassDecl) : List DocumentError :=
  faultUnless (decl.name ∉ classes) (.duplicateClass decl.name) ++ tyFaults classes decl.fields

/-- What is wrong with classes, each behind those before it. -/
def classFaults (classes : List String) : List ClassDecl → List DocumentError
  | [] => []
  | decl :: rest => decl.faults classes ++ classFaults (classes ++ [decl.name]) rest

/-- Fields are resolved one after the other, and take no ids. -/
theorem Names.meets_fields (h : names.Provides classes constants) (named : List NamedTy) :
    (names.fields named).Meets supply (tyFaults classes named) fun _ after => supply = after := by
  induction named with
  | nil => exact Loading.meets_pure rfl
  | cons first rest ih =>
    refine (meets_ty h first.ty).bind fun ty after hfound => ?_
    obtain ⟨-, rfl⟩ := hfound
    exact ih.map fun fields after hafter => hafter

/-- In a registry the class that was put in last is found, and all others as before. -/
theorem ClassRegistry.get?_define (registry : ClassRegistry) (cls : ClassDef) (name : String) :
    (registry.define cls).2.get? name
      = if cls.name = name then some cls else registry.get? name := by
  by_cases hname : cls.name = name
  · simp [ClassRegistry.define, ClassRegistry.get?, hname]
  · rw [if_neg hname]
    -- what is taken out for the new class has another name
    have hkept : (fun other : ClassDef =>
          !decide (other.name = cls.name) && decide (other.name = name))
        = fun other => other.name == name := by
      funext other
      by_cases hother : other.name = name
      · simp [hother, Ne.symm hname]
      · simp [hother]
    simp [ClassRegistry.define, ClassRegistry.get?, hname, List.find?_filter, hkept]

/-- A class is defined unless its name is taken or the type of a field is unknown. -/
theorem ClassDecl.meets_define (h : names.Provides classes constants) (decl : ClassDecl) :
    (decl.define names).Meets supply (decl.faults classes) fun next _ =>
      next.Provides (classes ++ [decl.name]) constants ∧ next.constants = names.constants := by
  have hseen : (names.classes.get? decl.name).isSome = true ↔ ¬ decl.name ∉ classes := by
    rw [h.classes, Decidable.not_not]
  refine Loading.meets_ite hseen _ fun _ => ?_
  refine (Names.meets_fields h decl.fields).bind_nil fun fields after hafter => ?_
  refine (Loading.meets_fresh fun supply => supply.newClass decl.name fields).map
    fun cls after hcls => ?_
  cases hcls
  refine ⟨⟨fun name => ?_, h.constants⟩, rfl⟩
  show ((names.classes.define _).2.get? name).isSome = true ↔ _
  rw [ClassRegistry.get?_define, List.mem_append, List.mem_singleton, ← h.classes]
  -- the new name is found, and the others as before
  by_cases hname : decl.name = name
  · simp [hname]
  · simp [hname, Ne.symm hname]

/-- **How classes are loaded.** -/
theorem meets_classes (h : names.Provides classes constants) (decls : List ClassDecl)
    (supply : Supply) :
    (decls.foldlM ClassDecl.define names).Meets supply (classFaults classes decls) fun next _ =>
      next.Provides (classes ++ decls.map ClassDecl.name) constants
        ∧ next.constants = names.constants := by
  induction decls generalizing names classes supply with
  | nil => exact Loading.meets_pure ⟨by rwa [List.map_nil, List.append_nil], rfl⟩
  | cons decl rest ih =>
    rw [List.foldlM_cons]
    refine (ClassDecl.meets_define h decl).bind fun next mid ⟨hnext, hconstants⟩ => ?_
    simpa only [List.append_assoc, List.singleton_append, List.map_cons, hconstants]
      using ih hnext mid

/-! ### Constants -/

/-- What is wrong with a constant behind other ones: its name, and then its expression. -/
def ConstantDecl.faults (classes constants : List String) (decl : ConstantDecl) :
    List DocumentError :=
  faultUnless (decl.name ∉ constants) (.duplicateConstant decl.name)
    ++ decl.value.faults classes constants []

/-- The same names with one more constant. -/
def Names.withConstant (names : Names) (name : String) (value : Value) : Names :=
  { names with constants := names.constants ++ [(name, value)] }

/-- The expression of a constant is resolved, compiled and evaluated. -/
def ConstantDecl.Evaluates (hosts : Hosts) (names : Names) (decl : ConstantDecl) (supply : Supply)
    (value : Value) (after : Supply) : Prop :=
  ∃ expr mid fn, (decl.value.resolve names []).outcome supply = (.ok expr, mid)
    ∧ Lambda.compile ⟨[], expr⟩ {} = .ok fn ∧ fn.invoke hosts [] mid = (.ok value, after)

/-- How a constant fails: by its first fault, or if it has none, when it is compiled or
    evaluated. -/
inductive ConstantDecl.Fails (hosts : Hosts) (classes : List String) (names : Names)
    (decl : ConstantDecl) (supply : Supply) : Error → Prop
  | fault {fault : DocumentError} {rest : List DocumentError} :
      decl.faults classes (names.constants.map Prod.fst) = fault :: rest →
      Fails hosts classes names decl supply (.document fault)
  | compile {expr : Expr Value} {mid : Supply} {error : CompileError} :
      decl.faults classes (names.constants.map Prod.fst) = [] →
      (decl.value.resolve names []).outcome supply = (.ok expr, mid) →
      Lambda.compile ⟨[], expr⟩ {} = .error error →
      Fails hosts classes names decl supply (.compile error)
  | runtime {expr : Expr Value} {mid after : Supply} {fn : CompiledFn} {error : RuntimeError} :
      decl.faults classes (names.constants.map Prod.fst) = [] →
      (decl.value.resolve names []).outcome supply = (.ok expr, mid) →
      Lambda.compile ⟨[], expr⟩ {} = .ok fn → fn.invoke hosts [] mid = (.error error, after) →
      Fails hosts classes names decl supply (.runtime error)

theorem taken_nil (supply : Supply) : Taken supply [] := ⟨List.nodup_nil, nofun⟩

/-- An expression that does not compile is not evaluated. -/
theorem outcome_evaluate_of_error {expr : Expr Value} {error : CompileError}
    (h : Lambda.compile ⟨[], expr⟩ {} = .error error) :
    (evaluate hosts expr).outcome supply = (.error (.compile error), supply) := by
  rw [evaluate, h]
  rfl

/-- An expression that compiles comes to what its invocation without arguments does. -/
theorem outcome_evaluate_of_ok {expr : Expr Value} {fn : CompiledFn}
    (h : Lambda.compile ⟨[], expr⟩ {} = .ok fn) :
    (evaluate hosts expr).outcome supply
      = ((fn.invoke hosts [] supply).1.mapError Error.runtime, (fn.invoke hosts [] supply).2) := by
  rw [evaluate, h]
  show (Loading.running fun supply => fn.invoke hosts [] supply).outcome supply = _
  rw [Loading.running, Loading.outcome_bind, Loading.outcome_fresh]
  cases (fn.invoke hosts [] supply).1 <;> rfl

/-- Behind its name and its expression, a constant is only evaluated. -/
theorem ConstantDecl.outcome_define_of_resolve {decl : ConstantDecl} {expr : Expr Value}
    {mid : Supply} (h : names.Provides classes constants)
    (hnone : decl.faults classes constants = [])
    (hresolve : (decl.value.resolve names []).outcome supply = (.ok expr, mid)) :
    (decl.define hosts names).outcome supply
      = (evaluate hosts expr >>= fun value =>
          pure (names.withConstant decl.name value)).outcome mid := by
  have hnew : ¬ (names.constant? decl.name).isSome = true := fun hseen =>
    faultUnless_eq_nil.1 (List.append_eq_nil_iff.1 hnone).1
      ((Names.constant?_isSome_iff h).1 hseen)
  rw [define, if_neg hnew, Loading.outcome_bind, hresolve]
  rfl

/-- A constant with faults fails with the first one. -/
theorem ConstantDecl.outcome_define_of_fault {decl : ConstantDecl} {fault : DocumentError}
    {rest : List DocumentError} (h : names.Provides classes constants)
    (hfirst : decl.faults classes constants = fault :: rest) (supply : Supply) :
    ∃ after, (decl.define hosts names).outcome supply = (.error (.document fault), after) := by
  rw [ConstantDecl.faults] at hfirst
  by_cases hname : decl.name ∈ constants
  · -- the name is looked at before anything else
    rw [faultUnless, if_neg (not_not_intro hname), List.singleton_append] at hfirst
    cases hfirst
    refine ⟨supply, ?_⟩
    rw [define, if_pos ((Names.constant?_isSome_iff h).2 hname)]
    rfl
  · rw [faultUnless, if_pos hname, List.nil_append] at hfirst
    -- its name is new, so the first fault is that of its value
    have hnew : ¬ (names.constant? decl.name).isSome = true := fun hseen =>
      hname ((Names.constant?_isSome_iff h).1 hseen)
    have hmeets := Node.meets_resolve h decl.value (taken_nil supply)
    rw [scopeNames, List.map_nil, hfirst] at hmeets
    obtain ⟨after, hresolve⟩ := hmeets.exists_error
    refine ⟨after, ?_⟩
    rw [define, if_neg hnew, Loading.outcome_bind, hresolve]

/-- A constant that evaluates is added with its value. -/
theorem ConstantDecl.Evaluates.outcome_define {decl : ConstantDecl} {value : Value}
    (h : names.Provides classes constants) (hnone : decl.faults classes constants = [])
    (hevaluates : decl.Evaluates hosts names supply value after) :
    (decl.define hosts names).outcome supply
      = (.ok (names.withConstant decl.name value), after) := by
  obtain ⟨expr, mid, fn, hresolve, hcompile, hinvoke⟩ := hevaluates
  rw [outcome_define_of_resolve h hnone hresolve, Loading.outcome_bind,
    outcome_evaluate_of_ok hcompile, hinvoke]
  rfl

/-- Defining a constant that fails fails with the same error. -/
theorem ConstantDecl.Fails.outcome_define {decl : ConstantDecl} {error : Error}
    (h : names.Provides classes constants) (hfails : decl.Fails hosts classes names supply error) :
    ∃ after, (decl.define hosts names).outcome supply = (.error error, after) := by
  obtain rfl := h.constants
  cases hfails with
  | fault hfirst => exact outcome_define_of_fault h hfirst supply
  | @compile _ mid _ hnone hresolve hcompile =>
    refine ⟨mid, ?_⟩
    rw [outcome_define_of_resolve h hnone hresolve, Loading.outcome_bind,
      outcome_evaluate_of_error hcompile]
  | @runtime _ _ after _ _ hnone hresolve hcompile hinvoke =>
    refine ⟨after, ?_⟩
    rw [outcome_define_of_resolve h hnone hresolve, Loading.outcome_bind,
      outcome_evaluate_of_ok hcompile, hinvoke]
    rfl

/-- A constant is evaluated, or fails. -/
theorem ConstantDecl.evaluates_or_fails (h : names.Provides classes constants)
    (decl : ConstantDecl) (supply : Supply) :
    (∃ value after, decl.faults classes constants = []
        ∧ decl.Evaluates hosts names supply value after)
      ∨ ∃ error, decl.Fails hosts classes names supply error := by
  obtain rfl := h.constants
  cases hfaults : decl.faults classes (names.constants.map Prod.fst) with
  | cons fault rest => exact .inr ⟨_, .fault hfaults⟩
  | nil =>
    have hmeets := Node.meets_resolve h decl.value (taken_nil supply)
    rw [scopeNames, List.map_nil, (List.append_eq_nil_iff.1 hfaults).2] at hmeets
    obtain ⟨expr, mid, hresolve, -⟩ := hmeets.exists_ok
    -- without faults the expression is resolved, and its compilation and its run decide
    cases hcompile : Lambda.compile ⟨[], expr⟩ {} with
    | error error => exact .inr ⟨_, .compile hfaults hresolve hcompile⟩
    | ok fn =>
      rcases hinvoke : fn.invoke hosts [] mid with ⟨error | value, after⟩
      · exact .inr ⟨_, .runtime hfaults hresolve hcompile hinvoke⟩
      · exact .inl ⟨value, after, rfl, expr, mid, fn, hresolve, hcompile, hinvoke⟩

/-- The constants of some declarations are evaluated one after the other, each with those before
    it. -/
inductive Evaluated (hosts : Hosts) (classes : List String) :
    Names → Supply → List ConstantDecl → Names → Supply → Prop
  | nil {names : Names} {supply : Supply} : Evaluated hosts classes names supply [] names supply
  | cons {names last : Names} {decl : ConstantDecl} {rest : List ConstantDecl} {value : Value}
      {supply mid after : Supply} :
      decl.faults classes (names.constants.map Prod.fst) = [] →
      decl.Evaluates hosts names supply value mid →
      Evaluated hosts classes (names.withConstant decl.name value) mid rest last after →
      Evaluated hosts classes names supply (decl :: rest) last after

/-- With one more constant one more name is known. -/
theorem Names.Provides.withConstant (h : names.Provides classes constants) (name : String)
    (value : Value) : (names.withConstant name value).Provides classes (constants ++ [name]) :=
  ⟨h.classes, by rw [Names.withConstant, List.map_append, h.constants]; rfl⟩

/-- All constants are evaluated, or one behind some others fails. -/
theorem evaluated_or_fails (h : names.Provides classes constants) (decls : List ConstantDecl)
    (supply : Supply) :
    (∃ last after, Evaluated hosts classes names supply decls last after)
      ∨ ∃ error before decl later reached mid, decls = before ++ decl :: later
        ∧ Evaluated hosts classes names supply before reached mid
        ∧ decl.Fails hosts classes reached mid error := by
  induction decls generalizing names constants supply with
  | nil => exact .inl ⟨names, supply, .nil⟩
  | cons decl rest ih =>
    obtain rfl := h.constants
    rcases decl.evaluates_or_fails h supply with ⟨value, mid, hnone, hevaluates⟩ | ⟨error, hfails⟩
    · -- those behind it have its value in sight
      rcases ih (h.withConstant decl.name value) mid with
        ⟨last, after, hlast⟩ | ⟨error, before, failing, later, reached, last, rfl, hreached, hfails⟩
      · exact .inl ⟨last, after, .cons hnone hevaluates hlast⟩
      · exact .inr ⟨error, decl :: before, failing, later, reached, last, rfl,
          .cons hnone hevaluates hreached, hfails⟩
    · exact .inr ⟨error, [], decl, rest, names, supply, rfl, .nil, hfails⟩

namespace Evaluated

variable {last : Names} {decls : List ConstantDecl}

/-- After a list of constants all their names are known. -/
theorem provides (h : Evaluated hosts classes names supply decls last after)
    (hnames : names.Provides classes constants) :
    last.Provides classes (constants ++ decls.map ConstantDecl.name) := by
  induction h generalizing constants with
  | nil => rwa [List.map_nil, List.append_nil]
  | @cons _ _ decl _ value _ _ _ _ _ _ ih =>
    have hlast := ih (hnames.withConstant decl.name value)
    rwa [List.append_assoc, List.singleton_append] at hlast

/-- Loading a list of constants that evaluate gives all their values. -/
theorem outcome (h : Evaluated hosts classes names supply decls last after)
    (hnames : names.Provides classes constants) :
    (decls.foldlM (ConstantDecl.define hosts) names).outcome supply = (.ok last, after) := by
  induction h generalizing constants with
  | nil => rfl
  | @cons _ _ decl _ value _ _ _ hnone hevaluates _ ih =>
    obtain rfl := hnames.constants
    rw [List.foldlM_cons, Loading.outcome_bind, hevaluates.outcome_define hnames hnone]
    exact ih (hnames.withConstant decl.name value)

theorem classes_eq (h : Evaluated hosts classes names supply decls last after) :
    last.classes = names.classes := by
  induction h with
  | nil => rfl
  | cons _ _ _ ih => exact ih

/-- The values stand behind those that there were, in the order of the declarations. -/
theorem constants_eq (h : Evaluated hosts classes names supply decls last after) :
    ∃ values, last.constants = names.constants ++ values
      ∧ values.map Prod.fst = decls.map ConstantDecl.name := by
  induction h with
  | @nil names _ => exact ⟨[], (List.append_nil names.constants).symm, rfl⟩
  | @cons names _ decl _ value _ _ _ _ _ _ ih =>
    obtain ⟨values, hlast, hnames⟩ := ih
    refine ⟨(decl.name, value) :: values, ?_, by rw [List.map_cons, List.map_cons, hnames]⟩
    rw [hlast, Names.withConstant, List.append_assoc, List.singleton_append]

/-- No constant is declared twice. -/
theorem nodup (h : Evaluated hosts classes names supply decls last after)
    (hnodup : (names.constants.map Prod.fst).Nodup) : (last.constants.map Prod.fst).Nodup := by
  induction h with
  | nil => exact hnodup
  | @cons names _ decl _ value _ _ _ hnone _ _ ih =>
    have hnew := faultUnless_eq_nil.1 (List.append_eq_nil_iff.1 hnone).1
    refine ih ?_
    rw [Names.withConstant, List.map_append, List.map_singleton]
    refine List.nodup_append.2 ⟨hnodup, List.pairwise_singleton _ _, ?_⟩
    intro name hname other hother
    obtain rfl : other = decl.name := List.mem_singleton.1 hother
    rintro rfl
    exact hnew hname

/-- Each constant was evaluated behind those before it. -/
theorem split {before later : List ConstantDecl} {decl : ConstantDecl}
    (h : Evaluated hosts classes names supply (before ++ decl :: later) last after) :
    ∃ reached mid value next, Evaluated hosts classes names supply before reached mid
      ∧ decl.faults classes (reached.constants.map Prod.fst) = []
      ∧ decl.Evaluates hosts reached mid value next
      ∧ Evaluated hosts classes (reached.withConstant decl.name value) next later last after := by
  induction before generalizing names supply with
  | nil =>
    cases h with
    | cons hnone hevaluates hlater => exact ⟨names, supply, _, _, .nil, hnone, hevaluates, hlater⟩
  -- the first constant is one of those before
  | cons first before ih =>
    cases h with
    | cons hfirst hvalue hrest =>
      obtain ⟨reached, mid, value, next, hreached, hnone, hevaluates, hlater⟩ := ih hrest
      exact ⟨reached, mid, value, next, .cons hfirst hvalue hreached, hnone, hevaluates, hlater⟩

end Evaluated

/-- A constant that fails behind others that do not stops loading. -/
theorem outcome_constants_of_fails {before later : List ConstantDecl} {decl : ConstantDecl}
    {reached : Names} {mid : Supply} {error : Error} (h : names.Provides classes constants)
    (hreached : Evaluated hosts classes names supply before reached mid)
    (hfails : decl.Fails hosts classes reached mid error) :
    ∃ after, ((before ++ decl :: later).foldlM (ConstantDecl.define hosts) names).outcome supply
      = (.error error, after) := by
  obtain ⟨after, hdefine⟩ := hfails.outcome_define (hreached.provides h)
  refine ⟨after, ?_⟩
  rw [List.foldlM_append, Loading.outcome_bind, hreached.outcome h]
  show ((decl :: later).foldlM (ConstantDecl.define hosts) reached).outcome mid = _
  rw [List.foldlM_cons, Loading.outcome_bind, hdefine]

/-! ### The lambda -/

/-- What is wrong with a lambda that stands in no other one. -/
def LambdaDecl.faults (classes constants : List String) (lambda : LambdaDecl) :
    List DocumentError :=
  (Node.lambda lambda.params lambda.body).faults classes constants []

/-- **How the lambda of a document is loaded.** -/
theorem LambdaDecl.meets_resolve (h : names.Provides classes constants) (lambda : LambdaDecl)
    (supply : Supply) :
    (lambda.resolve names).Meets supply (lambda.faults classes constants) fun loaded _ =>
      (Node.lambda lambda.params lambda.body).Denotes names [] loaded.toExpr := by
  refine (Names.meets_declare h lambda.params supply).bind fun params mid hdeclared => ?_
  obtain ⟨hdeclares, hnodup, hmid, hids⟩ := hdeclared
  have inside := (taken_nil supply).cons hnodup hmid hids
  have hbody := Node.meets_resolve h lambda.body inside
  rw [scopeNames, List.map_cons, Names.Declares.names_eq hdeclares] at hbody
  exact hbody.map fun expr after hexpr => .lambda hdeclares inside.apart hexpr.1

/-! ### Documents -/

/-- The classes of a document, by name. -/
def classNames (document : Document) : List String := document.classes.map ClassDecl.name

/-- The constants of a document, by name. -/
def constantNames (document : Document) : List String :=
  document.constants.map ConstantDecl.name

/-- Loading has come behind some of the constants: the classes are there, and these constants
    have their values. -/
def Reached (hosts : Hosts) (document : Document) (supply : Supply) (before : List ConstantDecl)
    (names : Names) (mid : Supply) : Prop :=
  ∃ start first, (document.classes.foldlM ClassDecl.define {}).outcome supply = (.ok start, first)
    ∧ Evaluated hosts document.classNames start first before names mid

/-- How loading fails: with the first fault of the classes; if they have none, with the first
    constant that fails, behind others that do not; and if there is none either, with the
    first fault of the lambda. -/
inductive Fails (hosts : Hosts) (document : Document) (supply : Supply) : Error → Prop
  | classes {fault : DocumentError} {rest : List DocumentError} :
      classFaults [] document.classes = fault :: rest →
      Fails hosts document supply (.document fault)
  | constant {before later : List ConstantDecl} {decl : ConstantDecl} {names : Names}
      {mid : Supply} {error : Error} :
      document.constants = before ++ decl :: later →
      Reached hosts document supply before names mid →
      decl.Fails hosts document.classNames names mid error → Fails hosts document supply error
  | lambda {names : Names} {mid : Supply} {fault : DocumentError} {rest : List DocumentError} :
      Reached hosts document supply document.constants names mid →
      document.lambda.faults document.classNames document.constantNames = fault :: rest →
      Fails hosts document supply (.document fault)

theorem provides_nil : ({} : Names).Provides [] [] :=
  ⟨fun name => by simp [ClassRegistry.get?], rfl⟩

variable {document : Document}

/-- When the classes are loaded, their names are known, and no constants. -/
theorem provides_of_classes {start : Names}
    (h : (document.classes.foldlM ClassDecl.define {}).outcome supply = (.ok start, after)) :
    start.Provides document.classNames [] :=
  ((meets_classes provides_nil document.classes supply).of_ok h).2.1

/-- Where loading has come to, all classes are known, and the constants before that place. -/
theorem Reached.provides {before : List ConstantDecl} {mid : Supply}
    (h : Reached hosts document supply before names mid) :
    names.Provides document.classNames (before.map ConstantDecl.name) := by
  obtain ⟨start, first, hclasses, hevaluated⟩ := h
  exact hevaluated.provides (provides_of_classes hclasses)

/-- What becomes of a document whose classes are declared. -/
theorem outcome_load_of_classes {start : Names} {first : Supply}
    (h : (document.classes.foldlM ClassDecl.define {}).outcome supply = (.ok start, first)) :
    (document.load hosts).outcome supply
      = (document.constants.foldlM (ConstantDecl.define hosts) start >>= fun names =>
          document.lambda.resolve names >>= fun lambda =>
            pure (LoadedDocument.mk names.classes names.constants lambda)).outcome first := by
  rw [load, Loading.outcome_bind, h]

/-- What becomes of a document whose constants are evaluated. -/
theorem outcome_load_of_reached {mid : Supply}
    (h : Reached hosts document supply document.constants names mid) :
    (document.load hosts).outcome supply
      = (document.lambda.resolve names >>= fun lambda =>
          pure (LoadedDocument.mk names.classes names.constants lambda)).outcome mid := by
  obtain ⟨start, first, hclasses, hevaluated⟩ := h
  rw [outcome_load_of_classes hclasses, Loading.outcome_bind,
    hevaluated.outcome (provides_of_classes hclasses)]

/-- Whatever fails in one of these ways is not loaded. -/
theorem Fails.outcome_load {error : Error} (h : document.Fails hosts supply error) :
    ∃ after, (document.load hosts).outcome supply = (.error error, after) := by
  cases h with
  | classes hfaults =>
    have hmeets := meets_classes provides_nil document.classes supply
    rw [hfaults] at hmeets
    obtain ⟨after, hclasses⟩ := hmeets.exists_error
    refine ⟨after, ?_⟩
    rw [load, Loading.outcome_bind, hclasses]
  -- loading stops at the constant, and does not look at what is behind it
  | constant hsplit hreached hfails =>
    obtain ⟨start, first, hclasses, hevaluated⟩ := hreached
    obtain ⟨after, hconstants⟩ :=
      outcome_constants_of_fails (provides_of_classes hclasses) hevaluated hfails
    refine ⟨after, ?_⟩
    rw [outcome_load_of_classes hclasses, Loading.outcome_bind, hsplit, hconstants]
  | @lambda _ mid _ _ hreached hfaults =>
    have hmeets := document.lambda.meets_resolve hreached.provides mid
    rw [← constantNames, hfaults] at hmeets
    obtain ⟨after, hlambda⟩ := hmeets.exists_error
    refine ⟨after, ?_⟩
    rw [outcome_load_of_reached hreached, Loading.outcome_bind, hlambda]

/-- **Loading a document succeeds, or fails in one of these ways.** -/
theorem outcome_load (hosts : Hosts) (document : Document) (supply : Supply) :
    (∃ names mid lambda after, classFaults [] document.classes = []
        ∧ Reached hosts document supply document.constants names mid
        ∧ document.lambda.faults document.classNames document.constantNames = []
        ∧ (Node.lambda document.lambda.params document.lambda.body).Denotes names [] lambda.toExpr
        ∧ (document.load hosts).outcome supply
          = (.ok ⟨names.classes, names.constants, lambda⟩, after))
      ∨ ∃ error after, document.Fails hosts supply error
        ∧ (document.load hosts).outcome supply = (.error error, after) := by
  by_cases hnever : ∃ error, document.Fails hosts supply error
  · obtain ⟨error, hfails⟩ := hnever
    obtain ⟨after, herror⟩ := hfails.outcome_load
    exact .inr ⟨error, after, hfails, herror⟩
  -- if nothing fails, there is no fault on the way
  have hclasses := meets_classes provides_nil document.classes supply
  cases hfaults : classFaults [] document.classes with
  | cons fault rest => exact absurd ⟨_, .classes hfaults⟩ hnever
  | nil =>
    rw [hfaults] at hclasses
    obtain ⟨start, first, hstart, -⟩ := hclasses.exists_ok
    rcases evaluated_or_fails (provides_of_classes hstart) document.constants first with
      ⟨names, mid, hevaluated⟩
      | ⟨error, before, decl, later, names, mid, hsplit, hevaluated, hfails⟩
    · have hreached : Reached hosts document supply document.constants names mid :=
        ⟨start, first, hstart, hevaluated⟩
      have hlambda := document.lambda.meets_resolve hreached.provides mid
      rw [← constantNames] at hlambda
      cases hnone : document.lambda.faults document.classNames document.constantNames with
      | cons fault rest => exact absurd ⟨_, .lambda hreached hnone⟩ hnever
      | nil =>
        rw [hnone] at hlambda
        obtain ⟨lambda, after, hresolve, hdenotes⟩ := hlambda.exists_ok
        refine .inl ⟨names, mid, lambda, after, rfl, hreached, rfl, hdenotes, ?_⟩
        rw [outcome_load_of_reached hreached, Loading.outcome_bind, hresolve]
        rfl
    · exact absurd ⟨error, .constant hsplit ⟨start, first, hstart, hevaluated⟩ hfails⟩ hnever

/-- Loading fails in exactly these ways. -/
theorem outcome_load_eq_error_iff {error : Error} :
    (∃ after, (document.load hosts).outcome supply = (.error error, after))
      ↔ document.Fails hosts supply error := by
  refine ⟨fun ⟨after, hload⟩ => ?_, Fails.outcome_load⟩
  rcases outcome_load hosts document supply with
    ⟨names, mid, lambda, last, _, _, _, _, hok⟩ | ⟨found, last, hfails, herror⟩
  · cases hload.symm.trans hok
  · cases hload.symm.trans herror
    exact hfails

end Document

end ExprTree
