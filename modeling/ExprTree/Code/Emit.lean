import ExprTree.Arena
import ExprTree.Code.Folding
import ExprTree.Code.Options
import ExprTree.Code.Plan
import ExprTree.Code.Scope

namespace ExprTree

/-!
# Emitting code

`Expr.emit` turns a tree into code:

* parameters become slots, and a nested lambda becomes a closure over the slots
  of its captures;
* constants other than primitives go to the pool, each value once;
* operators over primitive constants become their result, and a conditional
  whose test is known becomes the branch it takes;
* where the static types say enough, constructors lose their checks, fields are
  read by position and arithmetic expects numbers;
* an extension node becomes the code of its reduction; without one the tree is
  not supported.

`Lambda.emit` emits a whole lambda and gives its plan along with the code.
-/

/-- The code of a node with what is known about its value: its type, and the
    value itself if it is a primitive constant. -/
structure Emitted where
  code : Code Value
  ty : Ty
  folded : Option Value := none

/-- What emission has collected so far.  `deepest` is the largest number of
    nodes that were being emitted at once, each inside the one before. -/
structure EmitState where
  pool : Arena Value := {}
  layouts : List LambdaLayout := []
  inlineConstants : Nat := 0
  foldedNodes : Nat := 0
  deepest : Nat := 0

/-- Emission: it collects, and may find that a tree is not supported.  What was
    collected until then is not lost. -/
abbrev Emit := ExceptT CompileError (StateM EmitState)

namespace Emit

/-- Puts a primitive into the code. -/
def literal (value : Value) : Emit Emitted := do
  modify fun state => { state with inlineConstants := state.inlineConstants + 1 }
  return ⟨.literal value, value.typeOf, some value⟩

/-- Takes note of a node that folding replaces. -/
def countFolded : Emit Unit :=
  modify fun state => { state with foldedNodes := state.foldedNodes + 1 }

/-- Replaces a node by its value. -/
def foldTo (value : Value) : Emit Emitted := do
  countFolded
  literal value

/-- Takes note that a node is being emitted inside `level` others. -/
def visit (level : Nat) : Emit Unit :=
  modify fun state => { state with deepest := max state.deepest (level + 1) }

/-- Appends the layout of a lambda inside `depth` others. -/
def layout (depth : Nat) (scope : Scope) : Emit Unit :=
  modify fun state =>
    let layout := ⟨depth, scope.params.map (·.name), scope.captureList⟩
    { state with layouts := state.layouts ++ [layout] }

/-- The pool position of a value, which is added if it is new. -/
def pooled (value : Value) : Emit Nat :=
  modifyGet fun state =>
    let (index, pool) := state.pool.intern value
    (index, { state with pool })

/-- A constant: in the code if it is a primitive or `hoist` is off, in the pool otherwise. -/
def constant (hoist : Bool) (value : Value) : Emit Emitted :=
  if value.isPrimitive then literal value
  else if hoist then do
    let index ← pooled value
    return ⟨.pooled index, value.typeOf, none⟩
  else return ⟨.embedded value, value.typeOf, none⟩

/-- What folding gives, if it is on. -/
def folding {α : Type} (options : CompilerOptions) (folded : Option α) : Option α :=
  if options.foldConstants then folded else none

end Emit

/-- Whether every value of type `arg` fits a field of type `field`. -/
def Ty.surelyTakes (field arg : Ty) : Bool :=
  match field, arg with
  | .any, _ => true
  | .object _, .none => true
  | field, arg => field == arg

/-- A constructor call, without checks if the types of the arguments make them superfluous. -/
def emitNew (cls : ClassDef) (args : List Emitted) : Emitted :=
  let codes := args.map (·.code)
  let exact := args.length == cls.arity
    && (cls.fields.zip args).all fun (field, arg) => field.ty.surelyTakes arg.ty
  ⟨if exact then .construct cls codes else .instantiate cls codes, .object cls, none⟩

/-- A field access, by position if the class of the target is known. -/
def emitField (target : Emitted) (name : String) : Emitted :=
  match target.ty with
  | .object cls =>
    match cls.field? name with
    | some (index, field) => ⟨.fieldAt target.code index name, field.ty, none⟩
    | none => ⟨.field target.code name, .any, none⟩
  | _ => ⟨.field target.code name, .any, none⟩

/-- A unary operator that is not folded. -/
def emitUnary (op : UnaryOp) (operand : Emitted) : Emitted :=
  ⟨.unary op operand.code, (op.resultTy? operand.ty).getD .any, none⟩

/-- A binary operator that is not folded; arithmetic on known numbers is direct. -/
def emitBinary (op : BinaryOp) (left right : Emitted) : Emitted :=
  let ty := (op.resultTy? left.ty right.ty).getD .any
  if left.ty = .number ∧ right.ty = .number ∧ op.isArithmetic then
    ⟨.arithmetic op left.code right.code, ty, none⟩
  else ⟨.binary op left.code right.code, ty, none⟩

/-- The code that creates a closure. -/
def emitClosure (scope : Scope) (body : Emitted) : Code Value :=
  .closure scope.params scope.captureList body.code

mutual

/-- The code of a tree in a scope, inside `depth` lambdas and `level` nodes. -/
def Expr.emit (options : CompilerOptions) (scope : Scope) (depth level : Nat)
    (expr : Expr Value) : Emit Emitted := do
  Emit.visit level
  match expr with
  | .constant value => Emit.constant options.hoistConstants value
  | .parameter param =>
    match scope.resolve? param with
    | some slot => return ⟨.slot slot, param.ty, none⟩
    | none => throw (.unboundParameter param.name)
  | .new cls args =>
    let args ← Expr.emitAll options scope depth (level + 1) args
    return emitNew cls args
  | .field target name =>
    let target ← target.emit options scope depth (level + 1)
    return emitField target name
  | .unary op operand =>
    let operand ← operand.emit options scope depth (level + 1)
    match Emit.folding options (op.fold? operand.folded) with
    | some value => Emit.foldTo value
    | none => return emitUnary op operand
  | .binary op left right =>
    let left ← left.emit options scope depth (level + 1)
    match Emit.folding options (if op.isShortCircuit then op.fold? left.folded none else none) with
    | some value => Emit.foldTo value
    | none =>
      let right ← right.emit options scope depth (level + 1)
      match Emit.folding options (op.fold? left.folded right.folded) with
      | some value => Emit.foldTo value
      | none =>
        if op.isShortCircuit then return ⟨.shortCircuit op left.code right.code, .bool, none⟩
        else return emitBinary op left right
  | .conditional test yes no =>
    let test ← test.emit options scope depth (level + 1)
    match Emit.folding options (foldTest? test.folded) with
    | some true =>
      Emit.countFolded
      yes.emit options scope depth (level + 1)
    | some false =>
      Emit.countFolded
      no.emit options scope depth (level + 1)
    | none =>
      let yes ← yes.emit options scope depth (level + 1)
      let no ← no.emit options scope depth (level + 1)
      return ⟨.conditional test.code yes.code no.code, yes.ty.join no.ty, none⟩
  | .lambda params body =>
    let inner ← Scope.nested ⟨params, body⟩ scope
    Emit.layout depth inner
    let body ← body.emit options inner (depth + 1) (level + 1)
    return ⟨emitClosure inner body, .function (some params.length), none⟩
  | .invoke (.lambda params body) args =>
    let inner ← Scope.nested ⟨params, body⟩ scope
    Emit.layout depth inner
    let body ← body.emit options inner (depth + 1) (level + 1)
    let args ← Expr.emitAll options scope depth (level + 1) args
    return ⟨.invoke (emitClosure inner body) (args.map (·.code)), body.ty, none⟩
  | .invoke target args =>
    let target ← target.emit options scope depth (level + 1)
    let args ← Expr.emitAll options scope depth (level + 1) args
    return ⟨.invoke target.code (args.map (·.code)), .any, none⟩
  | .extension _ _ (some reduced) => reduced.emit options scope depth (level + 1)
  | .extension node _ none => throw (.notSupported ("extension " ++ node.name))
termination_by structural expr

/-- The code of several trees, from left to right. -/
def Expr.emitAll (options : CompilerOptions) (scope : Scope) (depth level : Nat) :
    List (Expr Value) → Emit (List Emitted)
  | [] => return []
  | expr :: rest => do
    let emitted ← expr.emit options scope depth level
    let others ← Expr.emitAll options scope depth level rest
    return emitted :: others
termination_by structural exprs => exprs

end

/-- The body of a lambda as the outermost one. -/
def Lambda.emitBody (options : CompilerOptions) (lambda : Lambda Value) : Emit Emitted := do
  let scope ← Scope.root lambda
  Emit.layout 0 scope
  lambda.body.emit options scope 1 0

/-- The plan of what was collected. -/
def EmitState.plan (state : EmitState) : Plan :=
  ⟨state.pool.toList, state.layouts, state.inlineConstants, state.foldedNodes⟩

/-- The code of a lambda, as a function that captures nothing, and its plan. -/
def Lambda.emit (options : CompilerOptions) (lambda : Lambda Value) :
    Except CompileError (Callable Value × Plan) :=
  match (lambda.emitBody options).run {} with
  | (.ok body, state) =>
    .ok (.compiled lambda.params body.code [] state.plan.constants, state.plan)
  | (.error error, _) => .error error

end ExprTree
