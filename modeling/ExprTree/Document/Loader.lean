import ExprTree.Document.Reader
import ExprTree.Error.Basic
import ExprTree.Function
import ExprTree.Json.Printer
import ExprTree.Ty.Registry

namespace ExprTree

/-!
# Loading a document

`Document.load` finds out what every name of a document stands for:

* classes come first; the type of a field is a built-in one or an earlier class;
* then constants, each evaluated at once by the tree walk, so that it can refer
  to the ones before it;
* then the lambda.

A parameter is that of the innermost lambda around it which declares its name,
and of several parameters of one name in a lambda the first.  Loading stops at
the first name that stands for nothing.  What was allocated until then stays
allocated.
-/

/-- The scalar that a JSON value stands for. -/
def Value.ofJson : Json → Except DocumentError Value
  | .null => .ok .none
  | .bool b => .ok (.bool b)
  | .number n => .ok (.number ⟨n.toFloat⟩)
  | .string s => .ok (.string s)
  | json => .error (.invalidLiteral json.text)

/-- A loaded document: its classes, its constants in order, and its lambda. -/
structure LoadedDocument where
  classes : ClassRegistry
  constants : List (String × Value)
  lambda : Lambda Value

namespace Document

/-- Loading takes ids from a supply, and an error does not give them back. -/
abbrev Loading := ExceptT Error (StateM Supply)

namespace Loading

/-- What was found, or the error of a name that stands for nothing. -/
def found {α : Type} (error : DocumentError) : Option α → Loading α
  | some a => return a
  | none => throw (.document error)

/-- Takes an id from the supply. -/
def fresh {α : Type} (take : Supply → α × Supply) : Loading α :=
  ExceptT.lift (modifyGet take)

/-- Runs code that may fail. -/
def running (run : Supply → Except RuntimeError Value × Supply) : Loading Value := do
  match ← fresh run with
  | .ok value => return value
  | .error error => throw (.runtime error)

end Loading

/-- What names stand for outside of lambdas. -/
structure Names where
  classes : ClassRegistry := {}
  constants : List (String × Value) := []

namespace Names

/-- The type of a name. -/
def ty (names : Names) (name : Option String) : Loading Ty :=
  Loading.found (.unknownType (name.getD "")) (names.classes.resolveOptional? name)

/-- The class of a name. -/
def cls (names : Names) (name : String) : Loading ClassDef :=
  Loading.found (.unknownClass name) (names.classes.get? name)

/-- The value of a constant. -/
def constant? (names : Names) (name : String) : Option Value :=
  (names.constants.find? fun constant => constant.1 == name).map (·.2)

/-- The parameters that a lambda declares, new ones every time. -/
def declare (names : Names) : List NamedTy → Loading (List Parameter)
  | [] => return []
  | named :: rest => do
    let ty ← names.ty named.ty
    let param ← Loading.fresh fun supply => supply.parameter named.name ty
    let params ← names.declare rest
    return param :: params

end Names

/-- The parameter of a name, where `scopes` lists what the lambdas around it
    declare, innermost first. -/
def parameter? (scopes : List (List Parameter)) (name : String) : Option Parameter :=
  scopes.findSome? fun scope => scope.find? fun param => param.name == name

/-! ### Expressions -/

mutual

/-- The tree of an expression. -/
def Node.resolve (names : Names) (scopes : List (List Parameter)) :
    Node → Loading (Expr Value)
  | .literal json =>
    match Value.ofJson json with
    | .ok value => return .constant value
    | .error error => throw (.document error)
  | .constant name => do
    let value ← Loading.found (.unknownConstant name) (names.constant? name)
    return .constant value
  | .parameter name => do
    let param ← Loading.found (.unknownParameter name) (parameter? scopes name)
    return .parameter param
  | .new cls args => do
    let cls ← names.cls cls
    let args ← Node.resolveAll names scopes args
    return .new cls args
  | .field target name => do
    let target ← target.resolve names scopes
    return .field target name
  | .unary op operand => do
    let operand ← operand.resolve names scopes
    return .unary op operand
  | .binary op left right => do
    let left ← left.resolve names scopes
    let right ← right.resolve names scopes
    return .binary op left right
  | .conditional test yes no => do
    let test ← test.resolve names scopes
    let yes ← yes.resolve names scopes
    let no ← no.resolve names scopes
    return .conditional test yes no
  | .lambda params body => do
    let params ← names.declare params
    let body ← body.resolve names (params :: scopes)
    return .lambda params body
  | .invoke target args => do
    let target ← target.resolve names scopes
    let args ← Node.resolveAll names scopes args
    return .invoke target args

/-- The trees of several expressions, from left to right. -/
def Node.resolveAll (names : Names) (scopes : List (List Parameter)) :
    List Node → Loading (List (Expr Value))
  | [] => return []
  | node :: rest => do
    let expr ← node.resolve names scopes
    let exprs ← Node.resolveAll names scopes rest
    return expr :: exprs

end

/-- A lambda that stands in no other one. -/
def LambdaDecl.resolve (names : Names) (lambda : LambdaDecl) : Loading (Lambda Value) := do
  let params ← names.declare lambda.params
  let body ← lambda.body.resolve names [params]
  return ⟨params, body⟩

/-! ### Declarations -/

/-- The fields of a class. -/
def Names.fields (names : Names) : List NamedTy → Loading (List Field)
  | [] => return []
  | named :: rest => do
    let ty ← names.ty named.ty
    let fields ← names.fields rest
    return ⟨named.name, ty⟩ :: fields

/-- Adds a class. -/
def ClassDecl.define (names : Names) (decl : ClassDecl) : Loading Names := do
  if (names.classes.get? decl.name).isSome then
    throw (.document (.duplicateClass decl.name))
  else
    let fields ← names.fields decl.fields
    let cls ← Loading.fresh fun supply => supply.newClass decl.name fields
    return { names with classes := (names.classes.define cls).2 }

/-- The value of an expression, by the tree walk. -/
def evaluate (hosts : Hosts) (expr : Expr Value) : Loading Value := do
  match Lambda.compile ⟨[], expr⟩ {} with
  | .ok fn => Loading.running fun supply => fn.invoke hosts [] supply
  | .error error => throw (.compile error)

/-- Adds a constant. -/
def ConstantDecl.define (hosts : Hosts) (names : Names) (decl : ConstantDecl) :
    Loading Names := do
  if (names.constant? decl.name).isSome then
    throw (.document (.duplicateConstant decl.name))
  else
    let expr ← decl.value.resolve names []
    let value ← evaluate hosts expr
    return { names with constants := names.constants ++ [(decl.name, value)] }

/-- Loads a document. -/
def load (hosts : Hosts) (document : Document) : Loading LoadedDocument := do
  let names ← document.classes.foldlM ClassDecl.define {}
  let names ← document.constants.foldlM (ConstantDecl.define hosts) names
  let lambda ← document.lambda.resolve names
  return ⟨names.classes, names.constants, lambda⟩

/-- Loads the document that a text is of. -/
def loadText (hosts : Hosts) (text : String) : Loading LoadedDocument :=
  match parse? text with
  | some document => document.load hosts
  | none => throw (.document .malformed)

end Document

end ExprTree
