import ExprTree.Proofs.Document.Basic
import ExprTree.Proofs.Document.Loading
import Mathlib.Data.List.Forall2

namespace ExprTree

/-!
# What names stand for

* `Node.faults` — what is wrong with an expression, where classes, constants and the
  parameters of the lambdas around it are known by their names: depth first, and from left
  to right;
* `Node.Denotes` — the trees of an expression.  A parameter is the first of its name in the
  innermost scope that has one (`Innermost`), and each lambda declares parameters of its
  own, with other ids than those around it;
* `Node.meets_resolve` — loading resolves an expression into such a tree, or fails with
  the first fault.
-/

namespace Document

/-! ### Faults -/

/-- A type is left out, built in or the name of a class. -/
def KnownTy (classes : List String) (ty : Option String) : Prop :=
  ∀ name ∈ ty, (ClassRegistry.builtin? name).isSome = true ∨ name ∈ classes

instance (classes : List String) (ty : Option String) : Decidable (KnownTy classes ty) :=
  inferInstanceAs (Decidable (∀ name ∈ ty, _))

/-- What is wrong with the types of fields or parameters. -/
def tyFaults (classes : List String) (named : List NamedTy) : List DocumentError :=
  named.flatMap fun named =>
    faultUnless (KnownTy classes named.ty) (.unknownType (named.ty.getD ""))

/-- A JSON value that is neither an array nor an object. -/
def IsScalar : Json → Prop
  | .array _ | .object _ => False
  | _ => True

instance : DecidablePred IsScalar := fun json => by
  cases json <;> unfold IsScalar <;> infer_instance

section

variable (classes constants : List String)

mutual

/-- What is wrong with an expression, in the order in which it is resolved.  `scopes` lists the
    parameters of the lambdas around it, innermost first. -/
def Node.faults (scopes : List (List String)) : Node → List DocumentError
  | .literal json => faultUnless (IsScalar json) (.invalidLiteral json.text)
  | .constant name => faultUnless (name ∈ constants) (.unknownConstant name)
  | .parameter name => faultUnless (∃ scope ∈ scopes, name ∈ scope) (.unknownParameter name)
  | .new cls args =>
    faultUnless (cls ∈ classes) (.unknownClass cls) ++ Node.allFaults scopes args
  | .field target _ => target.faults scopes
  | .unary _ operand => operand.faults scopes
  | .binary _ left right => left.faults scopes ++ right.faults scopes
  | .conditional test yes no => test.faults scopes ++ (yes.faults scopes ++ no.faults scopes)
  | .lambda params body =>
    tyFaults classes params ++ body.faults (params.map Typed.name :: scopes)
  | .invoke target args => target.faults scopes ++ Node.allFaults scopes args

/-- What is wrong with several expressions, from left to right. -/
def Node.allFaults (scopes : List (List String)) : List Node → List DocumentError
  | [] => []
  | node :: rest => node.faults scopes ++ Node.allFaults scopes rest

end

end

/-! ### Trees -/

/-- The first parameter of a name in the innermost of the scopes that have one. -/
def Innermost (name : String) (scopes : List (List Parameter)) (param : Parameter) : Prop :=
  ∃ inner before after outer, scopes = inner ++ (before ++ param :: after) :: outer
    ∧ param.name = name
    ∧ (∀ other ∈ before, other.name ≠ name)
    ∧ ∀ scope ∈ inner, ∀ other ∈ scope, other.name ≠ name

/-- Parameters of these names and types, in this order. -/
def Names.Declares (names : Names) (named : List NamedTy) (params : List Parameter) : Prop :=
  List.Forall₂ (fun named param => param.name = named.name
    ∧ names.classes.resolveOptional? named.ty = some param.ty) named params

/-- No parameter of these scopes is declared twice. -/
def Apart (scopes : List (List Parameter)) : Prop := (scopes.flatten.map Parameter.id).Nodup

/-- The trees that an expression stands for inside `scopes`, the parameters of the lambdas
    around it, innermost first. -/
inductive Node.Denotes (names : Names) : List (List Parameter) → Node → Expr Value → Prop
  | literal {scopes : List (List Parameter)} {json : Json} {value : Value} :
      Value.ofJson json = .ok value → Denotes names scopes (.literal json) (.constant value)
  | constant {scopes : List (List Parameter)} {name : String} {value : Value} :
      (name, value) ∈ names.constants → Denotes names scopes (.constant name) (.constant value)
  | parameter {scopes : List (List Parameter)} {name : String} {param : Parameter} :
      Innermost name scopes param → Denotes names scopes (.parameter name) (.parameter param)
  | new {scopes : List (List Parameter)} {name : String} {cls : ClassDef} {args : List Node}
      {exprs : List (Expr Value)} :
      names.classes.get? name = some cls → args.length = exprs.length →
      (∀ pair ∈ args.zip exprs, Denotes names scopes pair.1 pair.2) →
      Denotes names scopes (.new name args) (.new cls exprs)
  | field {scopes : List (List Parameter)} {target : Node} {name : String} {expr : Expr Value} :
      Denotes names scopes target expr →
      Denotes names scopes (.field target name) (.field expr name)
  | unary {scopes : List (List Parameter)} {op : UnaryOp} {operand : Node} {expr : Expr Value} :
      Denotes names scopes operand expr → Denotes names scopes (.unary op operand) (.unary op expr)
  | binary {scopes : List (List Parameter)} {op : BinaryOp} {left right : Node}
      {leftExpr rightExpr : Expr Value} :
      Denotes names scopes left leftExpr → Denotes names scopes right rightExpr →
      Denotes names scopes (.binary op left right) (.binary op leftExpr rightExpr)
  | conditional {scopes : List (List Parameter)} {test yes no : Node}
      {testExpr yesExpr noExpr : Expr Value} :
      Denotes names scopes test testExpr → Denotes names scopes yes yesExpr →
      Denotes names scopes no noExpr →
      Denotes names scopes (.conditional test yes no) (.conditional testExpr yesExpr noExpr)
  | lambda {scopes : List (List Parameter)} {named : List NamedTy} {params : List Parameter}
      {body : Node} {expr : Expr Value} :
      names.Declares named params → Apart (params :: scopes) →
      Denotes names (params :: scopes) body expr →
      Denotes names scopes (.lambda named body) (.lambda params expr)
  | invoke {scopes : List (List Parameter)} {target : Node} {expr : Expr Value} {args : List Node}
      {exprs : List (Expr Value)} :
      Denotes names scopes target expr → args.length = exprs.length →
      (∀ pair ∈ args.zip exprs, Denotes names scopes pair.1 pair.2) →
      Denotes names scopes (.invoke target args) (.invoke expr exprs)

/-! ### Lookup -/

/-- The parameter that is found is the first of its name in its scope, and no scope inside
    that one has one. -/
theorem innermost_of_parameter? {scopes : List (List Parameter)} {name : String}
    {param : Parameter} (h : parameter? scopes name = some param) :
    Innermost name scopes param := by
  obtain ⟨inner, scope, outer, rfl, hscope, hinner⟩ := List.findSome?_eq_some_iff.1 h
  obtain ⟨hname, before, after, rfl, hbefore⟩ := List.find?_eq_some_iff_append.1 hscope
  refine ⟨inner, before, after, outer, rfl, by simpa using hname, by simpa using hbefore, ?_⟩
  intro scope hscope other hother
  simpa using List.find?_eq_none.1 (hinner scope hscope) other hother

/-- A parameter is found if a scope has its name. -/
theorem parameter?_isSome_iff {scopes : List (List Parameter)} {name : String} :
    (parameter? scopes name).isSome = true
      ↔ ∃ scope ∈ scopes.map (List.map Parameter.name), name ∈ scope := by
  simp [parameter?]

/-- The classes and the constants that names stand for are those of these names. -/
structure Names.Provides (names : Names) (classes constants : List String) : Prop where
  classes : ∀ name, (names.classes.get? name).isSome = true ↔ name ∈ classes
  constants : names.constants.map Prod.fst = constants

variable {names : Names} {classes constants : List String} {supply : Supply}

/-- A constant is found if it is before the place of the look-up. -/
theorem Names.constant?_isSome_iff (h : names.Provides classes constants) {name : String} :
    (names.constant? name).isSome = true ↔ name ∈ constants := by
  rw [← h.constants]
  simp [constant?]

/-- The value that is found stands beside the name. -/
theorem Names.mem_of_constant? {name : String} {value : Value}
    (h : names.constant? name = some value) : (name, value) ∈ names.constants := by
  obtain ⟨⟨other, found⟩, hfind, rfl⟩ := Option.map_eq_some_iff.1 h
  have hname : other = name := by simpa using List.find?_some hfind
  exact hname ▸ List.mem_of_find?_eq_some hfind

/-- A type is found if it is left out, built in or a class before the place of the look-up. -/
theorem Names.resolveOptional?_isSome_iff (h : names.Provides classes constants)
    {ty : Option String} : (names.classes.resolveOptional? ty).isSome = true
      ↔ KnownTy classes ty := by
  cases ty with
  | none => simp [ClassRegistry.resolveOptional?, KnownTy]
  | some name =>
    simp [ClassRegistry.resolveOptional?, ClassRegistry.resolve?, KnownTy, ← h.classes]

/-- Literals that stand for values are scalars. -/
theorem isScalar_of_ofJson {json : Json} {value : Value} (h : Value.ofJson json = .ok value) :
    IsScalar json := by
  cases json with
  | array | object => cases h
  | _ => trivial

/-- Arrays and objects are refused as literals, with their text. -/
theorem not_isScalar_of_ofJson {json : Json} {fault : DocumentError}
    (h : Value.ofJson json = .error fault) :
    ¬ IsScalar json ∧ fault = .invalidLiteral json.text := by
  cases json with
  | array | object =>
    cases h
    exact ⟨id, rfl⟩
  | _ => cases h

/-! ### Declared parameters -/

/-- The parameters of these scopes are apart, and their ids are taken. -/
structure Taken (supply : Supply) (scopes : List (List Parameter)) : Prop where
  apart : Apart scopes
  below : ∀ param ∈ scopes.flatten, param.id < supply.nextParameter

theorem Taken.mono {scopes : List (List Parameter)} {after : Supply} (h : Taken supply scopes)
    (hle : supply.nextParameter ≤ after.nextParameter) : Taken after scopes :=
  ⟨h.apart, fun param hparam => Nat.lt_of_lt_of_le (h.below param hparam) hle⟩

/-- Resolving a type takes no ids. -/
theorem Names.meets_ty (h : names.Provides classes constants) (ty : Option String) :
    (names.ty ty).Meets supply (faultUnless (KnownTy classes ty) (.unknownType (ty.getD "")))
      fun found after => names.classes.resolveOptional? ty = some found ∧ supply = after :=
  Loading.meets_found (resolveOptional?_isSome_iff h) _

/-- A lambda declares parameters of its own: their ids are taken from the supply. -/
theorem Names.meets_declare (h : names.Provides classes constants) (named : List NamedTy)
    (supply : Supply) :
    (names.declare named).Meets supply (tyFaults classes named) fun params after =>
      names.Declares named params ∧ (params.map Parameter.id).Nodup
        ∧ supply.nextParameter ≤ after.nextParameter
        ∧ ∀ param ∈ params, supply.nextParameter ≤ param.id ∧ param.id < after.nextParameter := by
  induction named generalizing supply with
  | nil => exact Loading.meets_pure ⟨.nil, List.nodup_nil, Nat.le_refl _, nofun⟩
  | cons first rest ih =>
    refine (meets_ty h first.ty).bind fun ty after hfound => ?_
    obtain ⟨hty, rfl⟩ := hfound
    refine (Loading.meets_fresh fun supply => supply.parameter first.name ty).bind
      fun param after hparam => ?_
    cases hparam
    refine (ih _).map fun params after ⟨hdeclares, hnodup, hle, hids⟩ => ?_
    -- each parameter has the next id, so all later ones have greater ids
    have hlater : ∀ param ∈ params, supply.nextParameter < param.id := fun param hparam =>
      (hids param hparam).1
    have hend : supply.nextParameter < after.nextParameter := hle
    refine ⟨.cons ⟨rfl, hty⟩ hdeclares, ?_, Nat.le_of_lt hend, ?_⟩
    · refine List.nodup_cons.2 ⟨fun hmem => ?_, hnodup⟩
      obtain ⟨param, hparam, hid⟩ := List.mem_map.1 hmem
      exact absurd hid (Nat.ne_of_gt (hlater param hparam))
    · refine List.forall_mem_cons.2 ⟨⟨Nat.le_refl _, hend⟩, fun param hparam => ?_⟩
      exact ⟨Nat.le_of_lt (hlater param hparam), (hids param hparam).2⟩

/-- New parameters are apart from those around them. -/
theorem Taken.cons {scopes : List (List Parameter)} {params : List Parameter} {after : Supply}
    (h : Taken supply scopes) (hnodup : (params.map Parameter.id).Nodup)
    (hle : supply.nextParameter ≤ after.nextParameter)
    (hids : ∀ param ∈ params, supply.nextParameter ≤ param.id ∧ param.id < after.nextParameter) :
    Taken after (params :: scopes) := by
  constructor
  · show ((params :: scopes).flatten.map Parameter.id).Nodup
    rw [List.flatten_cons, List.map_append]
    -- the new ids are at or above the supply, and those of the scopes around below it
    refine List.nodup_append.2 ⟨hnodup, h.apart, fun id hid other hother => ?_⟩
    obtain ⟨param, hparam, rfl⟩ := List.mem_map.1 hid
    obtain ⟨outer, houter, rfl⟩ := List.mem_map.1 hother
    exact Nat.ne_of_gt (Nat.lt_of_lt_of_le (h.below outer houter) (hids param hparam).1)
  · rw [List.flatten_cons]
    refine List.forall_mem_append.2 ⟨fun param hparam => (hids param hparam).2, ?_⟩
    exact (h.mono hle).below

/-- Parameters have the names that they are declared with. -/
theorem Names.Declares.names_eq {named : List NamedTy} {params : List Parameter}
    (h : names.Declares named params) : params.map Parameter.name = named.map Typed.name := by
  induction h with
  | nil => rfl
  | cons hfirst _ ih => rw [List.map_cons, List.map_cons, hfirst.1, ih]

/-! ### Resolution -/

/-- What resolution should give: a tree of the expression, and no id back. -/
def Node.Resolved (names : Names) (scopes : List (List Parameter)) (supply : Supply) (node : Node)
    (expr : Expr Value) (after : Supply) : Prop :=
  node.Denotes names scopes expr ∧ supply.nextParameter ≤ after.nextParameter

/-- The names of the parameters in scope. -/
def scopeNames (scopes : List (List Parameter)) : List (List String) :=
  scopes.map (List.map Parameter.name)

/-- An expression is resolved wherever it stands, if only its first fault keeps it from it. -/
def Node.IsResolved (names : Names) (classes constants : List String) (node : Node) : Prop :=
  ∀ {scopes : List (List Parameter)} {supply : Supply}, Taken supply scopes →
    (node.resolve names scopes).Meets supply
      (node.faults classes constants (scopeNames scopes)) (node.Resolved names scopes supply)

/-- Arguments are resolved from left to right, in the same scopes. -/
theorem Node.meets_resolveAll {nodes : List Node}
    (h : ∀ node ∈ nodes, node.IsResolved names classes constants) {scopes : List (List Parameter)}
    {supply : Supply} (taken : Taken supply scopes) :
    (Node.resolveAll names scopes nodes).Meets supply
      (Node.allFaults classes constants (scopeNames scopes) nodes) fun exprs after =>
        nodes.length = exprs.length
          ∧ (∀ pair ∈ nodes.zip exprs, pair.1.Denotes names scopes pair.2)
          ∧ supply.nextParameter ≤ after.nextParameter := by
  induction nodes generalizing supply with
  | nil => exact Loading.meets_pure ⟨rfl, nofun, Nat.le_refl _⟩
  | cons node nodes ih =>
    obtain ⟨first, others⟩ := List.forall_mem_cons.1 h
    refine (first taken).bind fun expr after ⟨hexpr, hle⟩ => ?_
    refine (ih others (taken.mono hle)).map fun exprs after ⟨hlength, hexprs, hmore⟩ => ?_
    exact ⟨congrArg Nat.succ hlength, List.forall_mem_cons.2 ⟨hexpr, hexprs⟩,
      Nat.le_trans hle hmore⟩

/-- **How an expression is resolved**: into a tree that it stands for, or not at all if there
    is a fault, and then the error is the first one. -/
theorem Node.meets_resolve (h : names.Provides classes constants) (node : Node) :
    node.IsResolved names classes constants := by
  intro scopes supply taken
  induction node generalizing scopes supply with
  | literal json =>
    rw [resolve, faults]
    cases hjson : Value.ofJson json with
    | ok value =>
      rw [faultUnless, if_pos (isScalar_of_ofJson hjson)]
      exact Loading.meets_pure ⟨.literal hjson, Nat.le_refl _⟩
    | error fault =>
      obtain ⟨hscalar, rfl⟩ := not_isScalar_of_ofJson hjson
      rw [faultUnless, if_neg hscalar]
      exact Loading.meets_throw _
  | constant name =>
    refine (Loading.meets_found (Names.constant?_isSome_iff h) _).map fun value after hfound => ?_
    obtain ⟨hvalue, rfl⟩ := hfound
    exact ⟨.constant (Names.mem_of_constant? hvalue), Nat.le_refl _⟩
  | parameter name =>
    refine (Loading.meets_found parameter?_isSome_iff _).map fun param after hfound => ?_
    obtain ⟨hparam, rfl⟩ := hfound
    exact ⟨.parameter (innermost_of_parameter? hparam), Nat.le_refl _⟩
  | new cls args ih =>
    refine (Loading.meets_found (h.classes cls) _).bind fun found after hfound => ?_
    obtain ⟨hcls, rfl⟩ := hfound
    refine (meets_resolveAll (fun arg harg => ih arg harg) taken).map fun exprs after hexprs => ?_
    obtain ⟨hlength, hdenotes, hle⟩ := hexprs
    exact ⟨.new hcls hlength hdenotes, hle⟩
  | field target name ih =>
    exact (ih taken).map fun expr after htarget => ⟨.field htarget.1, htarget.2⟩
  | unary op operand ih =>
    exact (ih taken).map fun expr after hoperand => ⟨.unary hoperand.1, hoperand.2⟩
  | binary op left right ihLeft ihRight =>
    refine (ihLeft taken).bind fun leftExpr mid hleft => ?_
    refine (ihRight (taken.mono hleft.2)).map fun rightExpr after hright => ?_
    exact ⟨.binary hleft.1 hright.1, Nat.le_trans hleft.2 hright.2⟩
  | conditional test yes no ihTest ihYes ihNo =>
    refine (ihTest taken).bind fun testExpr first htest => ?_
    refine (ihYes (taken.mono htest.2)).bind fun yesExpr second hyes => ?_
    have hboth := Nat.le_trans htest.2 hyes.2
    refine (ihNo (taken.mono hboth)).map fun noExpr after hno => ?_
    exact ⟨.conditional htest.1 hyes.1 hno.1, Nat.le_trans hboth hno.2⟩
  | lambda params body ih =>
    refine (Names.meets_declare h params supply).bind fun found mid hdeclared => ?_
    obtain ⟨hdeclares, hnodup, hmid, hids⟩ := hdeclared
    have inside := taken.cons hnodup hmid hids
    -- the faults of the body are those inside the names of its parameters
    have hbody := ih inside
    rw [scopeNames, List.map_cons, Names.Declares.names_eq hdeclares] at hbody
    refine hbody.map fun expr after hexpr => ?_
    exact ⟨.lambda hdeclares inside.apart hexpr.1, Nat.le_trans hmid hexpr.2⟩
  | invoke target args ihTarget ihArgs =>
    refine (ihTarget taken).bind fun expr mid htarget => ?_
    refine (meets_resolveAll (fun arg harg => ihArgs arg harg) (taken.mono htarget.2)).map
      fun exprs after hexprs => ?_
    obtain ⟨hlength, hdenotes, hle⟩ := hexprs
    exact ⟨.invoke htarget.1 hlength hdenotes, Nat.le_trans htarget.2 hle⟩

end Document

end ExprTree
