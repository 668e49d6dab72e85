import ExprTree.Proofs.Document.Declarations

namespace ExprTree

/-!
# Which documents are loaded

`WellScoped` lists what has to hold of the names and literals of a document:

* no two classes and no two constants have the same name;
* the type of a field is left out, built in or a class before that of the field, and the
  type of a parameter is left out, built in or any class;
* constants refer to constants before them, and the lambda to any constant;
* parameters are those of lambdas around them, in the same expression;
* classes of constructor calls are declared, and literals are scalars.

If besides every constant is compiled and evaluated (`ConstantsEvaluate`), the document is
loaded, and only then; otherwise loading fails with the first of all faults
(`load_accepts`).
-/

namespace Document

variable {hosts : Hosts} {document : Document} {supply : Supply} {classes constants : List String}

/-! ### Lists read from the left -/

/-- Something holds of every element together with those before it. -/
def EachBehind {α : Type} (p : List α → α → Prop) (list : List α) : Prop :=
  ∀ before a later, list = before ++ a :: later → p before a

section

variable {α : Type} {p q : List α → α → Prop} {list : List α}

theorem eachBehind_nil : EachBehind p [] := fun before a later h =>
  absurd h.symm (List.append_ne_nil_of_right_ne_nil before (List.cons_ne_nil a later))

/-- The first element has nothing before it, and every other one has at least that. -/
theorem eachBehind_cons {a : α} :
    EachBehind p (a :: list) ↔ p [] a ∧ EachBehind (fun before => p (a :: before)) list := by
  constructor
  · intro h
    refine ⟨h [] a list rfl, fun before b later hsplit => h (a :: before) b later ?_⟩
    rw [hsplit, List.cons_append]
  · rintro ⟨first, others⟩ before b later hsplit
    cases before with
    | nil =>
      cases hsplit
      exact first
    | cons c before =>
      cases hsplit
      exact others before b later rfl

/-- Two properties hold of each element if both do. -/
theorem eachBehind_and :
    EachBehind (fun before a => p before a ∧ q before a) list
      ↔ EachBehind p list ∧ EachBehind q list := by
  constructor
  · exact fun h => ⟨fun before a later hsplit => (h before a later hsplit).1,
      fun before a later hsplit => (h before a later hsplit).2⟩
  · exact fun h before a later hsplit => ⟨h.1 before a later hsplit, h.2 before a later hsplit⟩

/-- Names are distinct if each of them is none of those before it. -/
theorem nodup_map_iff {name : α → String} :
    (list.map name).Nodup ↔ EachBehind (fun before a => name a ∉ before.map name) list := by
  -- with names that were there before
  have behind : ∀ seen : List String,
      EachBehind (fun before a => name a ∉ seen ++ before.map name) list
        ↔ (list.map name).Nodup ∧ ∀ a ∈ list, name a ∉ seen := by
    induction list with
    | nil => exact fun seen => iff_of_true eachBehind_nil ⟨List.nodup_nil, nofun⟩
    | cons a list ih =>
      intro seen
      have hrest := ih (seen ++ [name a])
      simp only [List.append_assoc, List.singleton_append] at hrest
      rw [eachBehind_cons, List.map_cons, List.nodup_cons, List.forall_mem_cons]
      simp only [List.map_nil, List.append_nil, List.map_cons]
      rw [hrest]
      constructor
      · rintro ⟨hfirst, hnodup, hnew⟩
        refine ⟨⟨fun hmem => ?_, hnodup⟩, hfirst, fun b hb hseen => ?_⟩
        · obtain ⟨b, hb, hsame⟩ := List.mem_map.1 hmem
          exact hnew b hb (List.mem_append_right _ (List.mem_singleton.2 hsame))
        · exact hnew b hb (List.mem_append_left _ hseen)
      · rintro ⟨⟨hother, hnodup⟩, hfirst, hnew⟩
        refine ⟨hfirst, hnodup, fun b hb hmem => ?_⟩
        rcases List.mem_append.1 hmem with hseen | hsame
        · exact hnew b hb hseen
        · exact hother (List.mem_map.2 ⟨b, hb, List.mem_singleton.1 hsame⟩)
  have hall := behind []
  simp only [List.nil_append, List.not_mem_nil, not_false_eq_true, implies_true, and_true] at hall
  exact hall.symm

end

/-! ### Expressions -/

/-- An expression whose literals are scalars and whose names all stand for something, where
    `scopes` lists the parameters of the lambdas around it, innermost first. -/
inductive Node.WellScoped (classes constants : List String) : List (List String) → Node → Prop
  | literal {scopes : List (List String)} {json : Json} :
      IsScalar json → WellScoped classes constants scopes (.literal json)
  | constant {scopes : List (List String)} {name : String} :
      name ∈ constants → WellScoped classes constants scopes (.constant name)
  | parameter {scopes : List (List String)} {scope : List String} {name : String} :
      scope ∈ scopes → name ∈ scope → WellScoped classes constants scopes (.parameter name)
  | new {scopes : List (List String)} {cls : String} {args : List Node} :
      cls ∈ classes → (∀ arg ∈ args, WellScoped classes constants scopes arg) →
      WellScoped classes constants scopes (.new cls args)
  | field {scopes : List (List String)} {target : Node} {name : String} :
      WellScoped classes constants scopes target →
      WellScoped classes constants scopes (.field target name)
  | unary {scopes : List (List String)} {op : UnaryOp} {operand : Node} :
      WellScoped classes constants scopes operand →
      WellScoped classes constants scopes (.unary op operand)
  | binary {scopes : List (List String)} {op : BinaryOp} {left right : Node} :
      WellScoped classes constants scopes left → WellScoped classes constants scopes right →
      WellScoped classes constants scopes (.binary op left right)
  | conditional {scopes : List (List String)} {test yes no : Node} :
      WellScoped classes constants scopes test → WellScoped classes constants scopes yes →
      WellScoped classes constants scopes no →
      WellScoped classes constants scopes (.conditional test yes no)
  | lambda {scopes : List (List String)} {params : List NamedTy} {body : Node} :
      (∀ param ∈ params, KnownTy classes param.ty) →
      WellScoped classes constants (params.map Typed.name :: scopes) body →
      WellScoped classes constants scopes (.lambda params body)
  | invoke {scopes : List (List String)} {target : Node} {args : List Node} :
      WellScoped classes constants scopes target →
      (∀ arg ∈ args, WellScoped classes constants scopes arg) →
      WellScoped classes constants scopes (.invoke target args)

/-- No type is at fault if all of them are known. -/
theorem tyFaults_eq_nil {named : List NamedTy} :
    tyFaults classes named = [] ↔ ∀ first ∈ named, KnownTy classes first.ty := by
  simp [tyFaults, List.flatMap_eq_nil_iff, faultUnless_eq_nil]

/-- Several expressions are without faults if each of them is. -/
theorem Node.allFaults_eq_nil {scopes : List (List String)} {nodes : List Node} :
    allFaults classes constants scopes nodes = []
      ↔ ∀ node ∈ nodes, node.faults classes constants scopes = [] := by
  induction nodes with
  | nil => simp [allFaults]
  | cons node nodes ih => simp [allFaults, ih]

/-- **An expression without faults** is well scoped. -/
theorem Node.faults_eq_nil {scopes : List (List String)} {node : Node} :
    node.faults classes constants scopes = [] ↔ node.WellScoped classes constants scopes := by
  -- at each node the faults are listed part by part, as the rules of being well scoped
  -- ask for the parts
  induction node generalizing scopes with
  | literal json =>
    rw [faults, faultUnless_eq_nil]
    refine ⟨.literal, fun h => ?_⟩
    cases h with
    | literal hscalar => exact hscalar
  | constant name =>
    rw [faults, faultUnless_eq_nil]
    refine ⟨.constant, fun h => ?_⟩
    cases h with
    | constant hname => exact hname
  | parameter name =>
    rw [faults, faultUnless_eq_nil]
    constructor
    · rintro ⟨scope, hscope, hname⟩
      exact .parameter hscope hname
    · intro h
      cases h with
      | parameter hscope hname => exact ⟨_, hscope, hname⟩
  | new cls args ih =>
    rw [faults, List.append_eq_nil_iff, faultUnless_eq_nil, allFaults_eq_nil]
    refine ⟨fun h => .new h.1 fun arg harg => (ih arg harg).1 (h.2 arg harg), fun h => ?_⟩
    cases h with
    | new hcls hargs => exact ⟨hcls, fun arg harg => (ih arg harg).2 (hargs arg harg)⟩
  | field target name ih =>
    rw [faults, ih]
    refine ⟨.field, fun h => ?_⟩
    cases h with
    | field htarget => exact htarget
  | unary op operand ih =>
    rw [faults, ih]
    refine ⟨.unary, fun h => ?_⟩
    cases h with
    | unary hoperand => exact hoperand
  | binary op left right ihLeft ihRight =>
    rw [faults, List.append_eq_nil_iff, ihLeft, ihRight]
    refine ⟨fun h => .binary h.1 h.2, fun h => ?_⟩
    cases h with
    | binary hleft hright => exact ⟨hleft, hright⟩
  | conditional test yes no ihTest ihYes ihNo =>
    rw [faults, List.append_eq_nil_iff, List.append_eq_nil_iff, ihTest, ihYes, ihNo]
    refine ⟨fun h => .conditional h.1 h.2.1 h.2.2, fun h => ?_⟩
    cases h with
    | conditional htest hyes hno => exact ⟨htest, hyes, hno⟩
  | lambda params body ih =>
    rw [faults, List.append_eq_nil_iff, tyFaults_eq_nil, ih]
    refine ⟨fun h => .lambda h.1 h.2, fun h => ?_⟩
    cases h with
    | lambda hparams hbody => exact ⟨hparams, hbody⟩
  | invoke target args ihTarget ihArgs =>
    rw [faults, List.append_eq_nil_iff, ihTarget, allFaults_eq_nil]
    refine ⟨fun h => .invoke h.1 fun arg harg => (ihArgs arg harg).1 (h.2 arg harg), fun h => ?_⟩
    cases h with
    | invoke htarget hargs =>
      exact ⟨htarget, fun arg harg => (ihArgs arg harg).2 (hargs arg harg)⟩

/-! ### Documents -/

/-- What has to hold of the names and literals in a document. -/
structure WellScoped (document : Document) : Prop where
  classes : document.classNames.Nodup
  fields : EachBehind (fun before cls => ∀ field ∈ cls.fields,
    KnownTy (before.map ClassDecl.name) field.ty) document.classes
  constants : document.constantNames.Nodup
  values : EachBehind (fun before constant => constant.value.WellScoped document.classNames
    (before.map ConstantDecl.name) []) document.constants
  params : ∀ param ∈ document.lambda.params, KnownTy document.classNames param.ty
  body : document.lambda.body.WellScoped document.classNames document.constantNames
    [document.lambda.params.map Typed.name]

/-- Every constant that loading comes to is compiled, as a lambda without parameters, and
    evaluated, by the tree walk and with the default options. -/
def ConstantsEvaluate (hosts : Hosts) (document : Document) (supply : Supply) : Prop :=
  ∀ before constant later names reached expr mid,
    document.constants = before ++ constant :: later →
    Reached hosts document supply before names reached →
    (constant.value.resolve names []).outcome reached = (.ok expr, mid) →
    ∃ fn value after, Lambda.compile ⟨[], expr⟩ {} = .ok fn
      ∧ fn.invoke hosts [] mid = (.ok value, after)

/-- Classes are without faults if each is, with the classes before it declared. -/
theorem classFaults_eq_nil {decls : List ClassDecl} :
    classFaults classes decls = [] ↔ EachBehind (fun before decl =>
      decl.faults (classes ++ before.map ClassDecl.name) = []) decls := by
  induction decls generalizing classes with
  | nil => exact iff_of_true rfl eachBehind_nil
  | cons decl rest ih =>
    rw [classFaults, List.append_eq_nil_iff, ih, eachBehind_cons]
    simp only [List.append_assoc, List.singleton_append, List.map_cons, List.map_nil,
      List.append_nil]

/-- **A document without faults in its names and literals** is well scoped. -/
theorem wellScoped_iff :
    document.WellScoped ↔ classFaults [] document.classes = []
      ∧ EachBehind (fun before constant => constant.faults document.classNames
        (before.map ConstantDecl.name) = []) document.constants
      ∧ document.lambda.faults document.classNames document.constantNames = [] := by
  simp only [classFaults_eq_nil, ClassDecl.faults, ConstantDecl.faults, LambdaDecl.faults,
    Node.faults, List.append_eq_nil_iff, faultUnless_eq_nil, tyFaults_eq_nil, Node.faults_eq_nil,
    eachBehind_and, List.nil_append]
  rw [← nodup_map_iff, ← nodup_map_iff]
  constructor
  · rintro ⟨classes, fields, constants, values, params, body⟩
    exact ⟨⟨classes, fields⟩, ⟨constants, values⟩, params, body⟩
  · rintro ⟨⟨classes, fields⟩, ⟨constants, values⟩, params, body⟩
    exact ⟨classes, fields, constants, values, params, body⟩

/-- A constant that loading comes to has the names of those before it in sight. -/
theorem Reached.faults_eq {before : List ConstantDecl} {names : Names} {mid : Supply}
    (h : Reached hosts document supply before names mid) (constant : ConstantDecl) :
    constant.faults document.classNames (names.constants.map Prod.fst)
      = constant.faults document.classNames (before.map ConstantDecl.name) := by
  rw [h.provides.constants]

/-- Where all names and literals are in order, and the constants evaluate, nothing fails. -/
theorem not_fails_of_wellScoped (hscoped : document.WellScoped)
    (hevaluate : document.ConstantsEvaluate hosts supply) (error : Error) :
    ¬ document.Fails hosts supply error := by
  obtain ⟨hclasses, hconstants, hlambda⟩ := wellScoped_iff.1 hscoped
  intro hfails
  cases hfails with
  | classes hfaults => cases hfaults.symm.trans hclasses
  | lambda _ hfaults => cases hfaults.symm.trans hlambda
  -- the constants before it have got their values, so what is asked of this one applies
  | constant hsplit hreached hfails =>
    have hnone := (hreached.faults_eq _).trans (hconstants _ _ _ hsplit)
    cases hfails with
    | fault hfirst => cases hfirst.symm.trans hnone
    | compile _ hresolve hcompile =>
      obtain ⟨fn, value, after, hok, _⟩ := hevaluate _ _ _ _ _ _ _ hsplit hreached hresolve
      cases hcompile.symm.trans hok
    | runtime _ hresolve hcompile hinvoke =>
      obtain ⟨fn, value, after, hok, hvalue⟩ := hevaluate _ _ _ _ _ _ _ hsplit hreached hresolve
      cases hcompile.symm.trans hok
      cases hinvoke.symm.trans hvalue

/-- Where nothing fails, all names and literals are in order. -/
theorem wellScoped_of_reached {names : Names} {mid : Supply}
    (hclasses : classFaults [] document.classes = [])
    (hreached : Reached hosts document supply document.constants names mid)
    (hlambda : document.lambda.faults document.classNames document.constantNames = []) :
    document.WellScoped := by
  refine wellScoped_iff.2 ⟨hclasses, fun before constant later hsplit => ?_, hlambda⟩
  obtain ⟨start, first, hstart, hevaluated⟩ := hreached
  rw [hsplit] at hevaluated
  obtain ⟨_, _, _, _, hbefore, hnone, _⟩ := hevaluated.split
  rwa [(hbefore.provides (provides_of_classes hstart)).constants, List.nil_append] at hnone

/-- Where nothing fails, constants are compiled and evaluated. -/
theorem constantsEvaluate_of_not_fails (hscoped : document.WellScoped)
    (h : ∀ error, ¬ document.Fails hosts supply error) :
    document.ConstantsEvaluate hosts supply := by
  intro before constant later names reached expr mid hsplit hreached hresolve
  obtain ⟨_, hconstants, _⟩ := wellScoped_iff.1 hscoped
  have hnone := (hreached.faults_eq constant).trans (hconstants _ _ _ hsplit)
  cases hcompile : Lambda.compile ⟨[], expr⟩ {} with
  | error error => exact absurd (.constant hsplit hreached (.compile hnone hresolve hcompile)) (h _)
  | ok fn =>
    rcases hinvoke : fn.invoke hosts [] mid with ⟨error | value, after⟩
    · exact absurd (.constant hsplit hreached (.runtime hnone hresolve hcompile hinvoke)) (h _)
    · exact ⟨fn, value, after, rfl, hinvoke⟩

/-- **Which documents are loaded.**  Loading succeeds on the well-scoped documents whose
    constants evaluate, and on no others.  Where it fails, the error is that of the first
    fault: of the classes in order, for each its name and then its fields; of the constants in
    order, for each its name, its expression, its compilation and its evaluation; and of the
    lambda.  Expressions are gone through depth first and from left to right
    (`Node.faults`). -/
theorem load_accepts (hosts : Hosts) (document : Document) (supply : Supply) :
    ((∃ loaded after, (document.load hosts).outcome supply = (.ok loaded, after))
        ↔ document.WellScoped ∧ document.ConstantsEvaluate hosts supply)
      ∧ ∀ error, (∃ after, (document.load hosts).outcome supply = (.error error, after))
        ↔ document.Fails hosts supply error := by
  refine ⟨⟨fun ⟨loaded, after, hload⟩ => ?_, fun ⟨hscoped, hevaluate⟩ => ?_⟩, fun error =>
    outcome_load_eq_error_iff⟩
  · -- a document that was loaded does not fail as well, and is then well scoped
    have hnever : ∀ error, ¬ document.Fails hosts supply error := by
      intro error hfails
      obtain ⟨_, herror⟩ := hfails.outcome_load
      cases hload.symm.trans herror
    rcases outcome_load hosts document supply with
      ⟨names, mid, lambda, _, hclasses, hreached, hlambda, _⟩ | ⟨error, _, hfails, _⟩
    · have hscoped := wellScoped_of_reached hclasses hreached hlambda
      exact ⟨hscoped, constantsEvaluate_of_not_fails hscoped hnever⟩
    · exact absurd hfails (hnever error)
  · rcases outcome_load hosts document supply with
      ⟨names, mid, lambda, after, _, _, _, _, hok⟩ | ⟨error, _, hfails, _⟩
    · exact ⟨_, after, hok⟩
    · exact absurd hfails (not_fails_of_wellScoped hscoped hevaluate error)

/-- The class of a constructor call comes before its arguments, and these from left to right. -/
example : Node.faults [] ["c"] [["x"]]
    (.new "Q" [.binary .add (.parameter "y") (.constant "d"), .literal (.array [.null])])
    = [.unknownClass "Q", .unknownParameter "y", .unknownConstant "d",
      .invalidLiteral "[null]"] := by
  decide

end Document

end ExprTree
