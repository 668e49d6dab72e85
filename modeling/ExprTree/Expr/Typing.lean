import ExprTree.Error.Compile
import ExprTree.Value.Basic

namespace ExprTree

/-!
# Typing

`Lambda.validate` accepts a lambda and gives the type of its body, or says what
is wrong with it.  It checks that parameters are bound and declared once, that
operands have types their operators take, that constructors and directly
invoked lambdas get arguments that fit, and that no node is nested too deeply.

`any` stands for a type that is not known and fits everywhere.

The nesting of a node counts every node around it, bodies of lambdas included;
a lambda that is invoked directly does not count itself.
-/

/-! ### Types of operators -/

/-- Whether an operand of type `actual` can be what an operator expects. -/
def Ty.fits (actual expected : Ty) : Bool :=
  actual == .any || actual == expected

namespace UnaryOp

/-- The type of the operand, which is also that of the result. -/
def operandTy : UnaryOp → Ty
  | .negate => .number
  | .not => .bool

/-- The type of the result, if the operand can have the right type. -/
def resultTy? (op : UnaryOp) (operand : Ty) : Option Ty :=
  if operand.fits op.operandTy then some op.operandTy else none

end UnaryOp

namespace BinaryOp

/-- What the operands may be, as messages say it. -/
def operandText : BinaryOp → String
  | .eq | .ne => "any"
  | .and | .or => "bool"
  | .sub | .mul | .div | .rem => "number"
  | .add | .lt | .le | .gt | .ge => "number or string"

/-- The type of the result, if the operands can have the right types.  Where
    operands of unknown type leave more than one possibility it is unknown. -/
def resultTy? (op : BinaryOp) (left right : Ty) : Option Ty :=
  let both (ty : Ty) : Bool := left.fits ty && right.fits ty
  match op with
  | .eq | .ne => some .bool
  | .and | .or => if both .bool then some .bool else none
  | .sub | .mul | .div | .rem => if both .number then some .number else none
  | .add =>
    match both .number, both .string with
    | true, true => some .any
    | true, false => some .number
    | false, true => some .string
    | false, false => none
  | .lt | .le | .gt | .ge => if both .number || both .string then some .bool else none

end BinaryOp

/-! ### Places for arguments -/

/-- A place that an argument is checked against: how messages call it, and the
    type expected there. -/
abbrev Place := String × Ty

/-- The places of a constructor call. -/
def ClassOver.places (cls : ClassDef) : List Place :=
  cls.fields.map fun field => (cls.name ++ "." ++ field.name, field.ty)

/-- The places of a direct invocation. -/
def parameterPlaces (params : List Parameter) : List Place :=
  params.map fun param => ("parameter " ++ param.name, param.ty)

/-- The first parameter that a list declares for the second time. -/
def firstRepeated? : List Parameter → Option Parameter :=
  go []
where
  /-- Looks for a parameter that is among `seen` or repeated later. -/
  go (seen : List Parameter) : List Parameter → Option Parameter
    | [] => none
    | param :: rest => if param ∈ seen then some param else go (param :: seen) rest

/-! ### Trees -/

/-- The error of a place that does not take what it is given. -/
def mismatch {α : Type} (context expected got : String) : Except CompileError α :=
  .error (.typeMismatch context expected got)

/-- Checks that every parameter is declared once before going on. -/
@[macro_inline] def declaringOnce {α : Type} (params : List Parameter)
    (next : Except CompileError α) : Except CompileError α :=
  match firstRepeated? params with
  | some param => .error (.duplicateParameter param.name)
  | none => next

/-- The type of a field access on a target of known type. -/
def Ty.fieldTy (target : Ty) (name : String) : Except CompileError Ty :=
  match target with
  | .object cls =>
    match cls.field? name with
    | some (_, field) => .ok field.ty
    | .none => .error (.unknownField cls.name name)
  | .any => .ok .any
  | ty => mismatch ("." ++ name) "object" ty.text

/-- The type of an invocation of a target of known type. -/
def Ty.invocationTy (target : Ty) (argCount : Nat) : Except CompileError Ty :=
  match target with
  | .function (some arity) =>
    if arity ≠ argCount then .error (.argumentCount "invoke" arity argCount) else .ok .any
  | .function .none | .any => .ok .any
  | ty => mismatch "invoke" "function" ty.text

mutual

/-- The type of a tree below `depth` other nodes, where `limit` nodes may be
    nested and `scopes` lists what the enclosing lambdas declare, innermost
    first. -/
def Expr.infer (limit : Nat) (scopes : List (List Parameter)) (depth : Nat)
    (expr : Expr Value) : Except CompileError Ty :=
  if limit ≤ depth then .error (.tooDeep limit)
  else match expr with
    | .constant value => .ok value.typeOf
    | .parameter param =>
      if scopes.any fun scope => scope.contains param then .ok param.ty
      else .error (.unboundParameter param.name)
    | .new cls args =>
      if args.length ≠ cls.arity then
        .error (.argumentCount cls.name cls.arity args.length)
      else do
        Expr.checkAll limit scopes (depth + 1) cls.places args
        return .object cls
    | .field target name => do
      let target ← target.infer limit scopes (depth + 1)
      target.fieldTy name
    | .unary op operand => do
      let operand ← operand.infer limit scopes (depth + 1)
      match op.resultTy? operand with
      | some ty => .ok ty
      | none => mismatch op.symbol op.operandTy.text operand.text
    | .binary op left right => do
      let left ← left.infer limit scopes (depth + 1)
      let right ← right.infer limit scopes (depth + 1)
      match op.resultTy? left right with
      | some ty => .ok ty
      | none => mismatch op.symbol op.operandText (left.text ++ ", " ++ right.text)
    | .conditional test yes no => do
      let test ← test.infer limit scopes (depth + 1)
      if Ty.isAssignableFrom .bool test then
        let yes ← yes.infer limit scopes (depth + 1)
        let no ← no.infer limit scopes (depth + 1)
        return yes.join no
      else mismatch "condition" "bool" test.text
    | .lambda params body => do
      let _ ← declaringOnce params (body.infer limit (params :: scopes) (depth + 1))
      return .function (some params.length)
    | .invoke (.lambda params body) args =>
      if params.length ≠ args.length then
        .error (.argumentCount "invoke" params.length args.length)
      else do
        Expr.checkAll limit scopes (depth + 1) (parameterPlaces params) args
        declaringOnce params (body.infer limit (params :: scopes) (depth + 1))
    | .invoke target args => do
      let target ← target.infer limit scopes (depth + 1)
      let _ ← Expr.inferAll limit scopes (depth + 1) args
      target.invocationTy args.length
    | .extension node operands _ => do
      let _ ← Expr.inferAll limit scopes (depth + 1) operands
      return node.ty
termination_by structural expr

/-- The types of several trees, from left to right. -/
def Expr.inferAll (limit : Nat) (scopes : List (List Parameter)) (depth : Nat) :
    List (Expr Value) → Except CompileError (List Ty)
  | [] => .ok []
  | expr :: rest => do
    let ty ← expr.infer limit scopes depth
    let tys ← Expr.inferAll limit scopes depth rest
    return ty :: tys
termination_by structural exprs => exprs

/-- Checks arguments against their places, from left to right. -/
def Expr.checkAll (limit : Nat) (scopes : List (List Parameter)) (depth : Nat) :
    List Place → List (Expr Value) → Except CompileError Unit
  | (context, expected) :: places, arg :: args => do
    let ty ← arg.infer limit scopes depth
    if expected.isAssignableFrom ty then Expr.checkAll limit scopes depth places args
    else mismatch context expected.text ty.text
  | _, _ => .ok ()
termination_by structural _ args => args

end

/-- Nodes that may be nested where no limit is asked for. -/
def defaultTreeDepth : Nat := 512

/-- The type of the body of a lambda that is well formed and nests at most `limit` nodes. -/
def Lambda.validate (lambda : Lambda Value) (limit : Nat) : Except CompileError Ty :=
  declaringOnce lambda.params (lambda.body.infer limit [lambda.params] 0)

end ExprTree
