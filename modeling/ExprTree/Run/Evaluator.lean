import ExprTree.Run.Outcome
import ExprTree.Value.Operations

namespace ExprTree

/-!
# Evaluation

Two ways to run the body of a function, and one way to call a function value:

* `eval` walks a tree: parameters are looked up in the environment, fields by
  name, and every constructor call is checked;
* `exec` runs compiled code: parameters, captures and constants are read from
  their slots in the `Activation` of the call;
* `call` checks the arguments of a function value, enters the call stack and
  runs the body, in either way or in the host (`Hosts`).

All of them terminate because a call leaves less room on the call stack and
every other step goes to a smaller piece of the body.
-/

/-- What the functions of the host do: natives, and the evaluators of extension nodes.

    A function sees what it captured, its arguments and the next ids, and may make
    objects and functions with these; whether it does, and which ids it leaves, is up to
    it.  It is not given the call stack: what it runs itself is not counted there.

    Left out is whatever it would see or change besides, such as a state of its own that
    outlives a call: called twice in the same way it does the same. -/
abbrev Hosts := HostFunction Value → List Value → Supply → Except RuntimeError Value × Supply

/-- What compiled code reads while a call runs. -/
structure Activation where
  args : List Value
  captured : List Value
  constants : List Value

namespace Activation

/-- The entry of a table. -/
def entry (table : List Value) (index : Nat) : Except RuntimeError Value :=
  match table[index]? with
  | some value => .ok value
  | none => .error (.slotOutOfRange index)

/-- The value in a slot. -/
def read (activation : Activation) : Slot → Except RuntimeError Value
  | .argument index => entry activation.args index
  | .captured index => entry activation.captured index

/-- The values that a new closure takes along. -/
def capture (activation : Activation) : List Capture → Except RuntimeError (List Value)
  | [] => .ok []
  | capture :: rest => do
    let value ← activation.read capture.source
    let values ← activation.capture rest
    return value :: values

end Activation

/-- The value of a parameter in an environment. -/
def Env.resolve (env : Env Value) (param : Parameter) : Except RuntimeError Value :=
  match env.lookup? param with
  | some value => .ok value
  | none => .error (.undefinedParameter param.name)

/-- What a short circuit gives when its left operand settles it. -/
def BinaryOp.settled? (op : BinaryOp) (left : Bool) : Option Value :=
  if op.settledBy left then some (.bool left) else none

mutual

/-- Walks a tree. -/
def eval (hosts : Hosts) (expr : Expr Value) (env : Env Value) (stack : CallStack)
    (supply : Supply) : Outcome stack Value :=
  match expr with
  | .constant value => .done stack supply (.ok value)
  | .parameter param => .done stack supply (env.resolve param)
  | .new cls args =>
    (evalAll hosts args env stack supply).bind fun values stack _ supply =>
      let (result, supply) := cls.instantiate values supply
      .done stack supply result
  | .field target name =>
    (eval hosts target env stack supply).bind fun value stack _ supply =>
      .done stack supply (value.field name)
  | .unary op operand =>
    (eval hosts operand env stack supply).bind fun value stack _ supply =>
      .done stack supply (op.apply value)
  | .binary op left right =>
    if op.isShortCircuit then
      (eval hosts left env stack supply).bind fun value stack _ supply =>
        match value.test op.symbol with
        | .error error => .done stack supply (.error error)
        | .ok b =>
          match op.settled? b with
          | some result => .done stack supply (.ok result)
          | none =>
            (eval hosts right env stack supply).bind fun value stack _ supply =>
              .done stack supply ((value.test op.symbol).map .bool)
    else
      (eval hosts left env stack supply).bind fun a stack _ supply =>
        (eval hosts right env stack supply).bind fun b stack _ supply =>
          .done stack supply (op.apply a b)
  | .conditional test yes no =>
    (eval hosts test env stack supply).bind fun value stack _ supply =>
      match value.test "condition" with
      | .error error => .done stack supply (.error error)
      | .ok true => eval hosts yes env stack supply
      | .ok false => eval hosts no env stack supply
  | .lambda params body =>
    let (closure, supply) := supply.function (.interpreted params body env)
    .done stack supply (.ok closure)
  | .invoke target args =>
    (eval hosts target env stack supply).bind fun target stack _ supply =>
      (evalAll hosts args env stack supply).bind fun values stack _ supply =>
        match target with
        | .function _ callable => call hosts callable values stack supply
        | other => .done stack supply (.error (.notCallable other.typeName))
  | .extension node operands _ =>
    (evalAll hosts operands env stack supply).bind fun values stack _ supply =>
      let (result, supply) := hosts node.host values supply
      .done stack supply result
termination_by (stack.room, sizeOf expr)
decreasing_by all_goals exact .right' _ (by omega) (by decreasing_tactic)

/-- Walks several trees from left to right. -/
def evalAll (hosts : Hosts) (exprs : List (Expr Value)) (env : Env Value)
    (stack : CallStack) (supply : Supply) : Outcome stack (List Value) :=
  match exprs with
  | [] => .done stack supply (.ok [])
  | expr :: rest =>
    (eval hosts expr env stack supply).bind fun value stack _ supply =>
      (evalAll hosts rest env stack supply).bind fun values stack _ supply =>
        .done stack supply (.ok (value :: values))
termination_by (stack.room, sizeOf exprs)
decreasing_by all_goals exact .right' _ (by omega) (by decreasing_tactic)

/-- Runs compiled code. -/
def exec (hosts : Hosts) (code : Code Value) (activation : Activation) (stack : CallStack)
    (supply : Supply) : Outcome stack Value :=
  match code with
  | .literal value | .embedded value => .done stack supply (.ok value)
  | .pooled index => .done stack supply (Activation.entry activation.constants index)
  | .slot slot => .done stack supply (activation.read slot)
  | .construct cls args =>
    (execAll hosts args activation stack supply).bind fun values stack _ supply =>
      let (object, supply) := supply.object cls values
      .done stack supply (.ok object)
  | .instantiate cls args =>
    (execAll hosts args activation stack supply).bind fun values stack _ supply =>
      let (result, supply) := cls.instantiate values supply
      .done stack supply result
  | .fieldAt target index name =>
    (exec hosts target activation stack supply).bind fun value stack _ supply =>
      .done stack supply (value.fieldAt index name)
  | .field target name =>
    (exec hosts target activation stack supply).bind fun value stack _ supply =>
      .done stack supply (value.field name)
  | .unary op operand =>
    (exec hosts operand activation stack supply).bind fun value stack _ supply =>
      .done stack supply (op.apply value)
  | .shortCircuit op left right =>
    (exec hosts left activation stack supply).bind fun value stack _ supply =>
      match value.test op.symbol with
      | .error error => .done stack supply (.error error)
      | .ok b =>
        match op.settled? b with
        | some result => .done stack supply (.ok result)
        | none =>
          (exec hosts right activation stack supply).bind fun value stack _ supply =>
            .done stack supply ((value.test op.symbol).map .bool)
  | .arithmetic op left right =>
    (exec hosts left activation stack supply).bind fun a stack _ supply =>
      (exec hosts right activation stack supply).bind fun b stack _ supply =>
        match a, b with
        | .number m, .number n => .done stack supply ((op.arithmetic m n).map .number)
        | a, b => .done stack supply (op.apply a b)
  | .binary op left right =>
    (exec hosts left activation stack supply).bind fun a stack _ supply =>
      (exec hosts right activation stack supply).bind fun b stack _ supply =>
        .done stack supply (op.apply a b)
  | .conditional test yes no =>
    (exec hosts test activation stack supply).bind fun value stack _ supply =>
      match value.test "condition" with
      | .error error => .done stack supply (.error error)
      | .ok true => exec hosts yes activation stack supply
      | .ok false => exec hosts no activation stack supply
  | .closure params captures body =>
    match activation.capture captures with
    | .error error => .done stack supply (.error error)
    | .ok captured =>
      let (closure, supply) :=
        supply.function (.compiled params body captured activation.constants)
      .done stack supply (.ok closure)
  | .invoke target args =>
    (exec hosts target activation stack supply).bind fun target stack _ supply =>
      (execAll hosts args activation stack supply).bind fun values stack _ supply =>
        match target with
        | .function _ callable => call hosts callable values stack supply
        | other => .done stack supply (.error (.notCallable other.typeName))
termination_by (stack.room, sizeOf code)
decreasing_by all_goals exact .right' _ (by omega) (by decreasing_tactic)

/-- Runs several pieces of code from left to right. -/
def execAll (hosts : Hosts) (codes : List (Code Value)) (activation : Activation)
    (stack : CallStack) (supply : Supply) : Outcome stack (List Value) :=
  match codes with
  | [] => .done stack supply (.ok [])
  | code :: rest =>
    (exec hosts code activation stack supply).bind fun value stack _ supply =>
      (execAll hosts rest activation stack supply).bind fun values stack _ supply =>
        .done stack supply (.ok (value :: values))
termination_by (stack.room, sizeOf codes)
decreasing_by all_goals exact .right' _ (by omega) (by decreasing_tactic)

/-- Calls a function value. -/
def call (hosts : Hosts) (callable : Callable Value) (args : List Value) (stack : CallStack)
    (supply : Supply) : Outcome stack Value :=
  match callable with
  | .interpreted params body env =>
    match checkParameters params args with
    | .error error => .done stack supply (.error error)
    | .ok () =>
      stack.during supply fun inner _ =>
        eval hosts body (Frame.bind params args :: env) inner supply
  | .compiled params body captured constants =>
    match checkParameters params args with
    | .error error => .done stack supply (.error error)
    | .ok () =>
      stack.during supply fun inner _ =>
        exec hosts body ⟨args, captured, constants⟩ inner supply
  | .native name arity host =>
    if args.length ≠ arity then
      .done stack supply (.error (.arityMismatch name arity args.length))
    else
      stack.during supply fun inner _ =>
        let (result, supply) := hosts host args supply
        .done inner supply result
termination_by (stack.room, 0)
decreasing_by all_goals exact .left _ _ ‹_›

end

end ExprTree
