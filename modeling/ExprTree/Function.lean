import ExprTree.Code.Emit
import ExprTree.Run.Evaluator

namespace ExprTree

/-!
# Compiled functions

`Lambda.compile` keeps the validated tree and walks it on every call;
`Lambda.compileFast` turns it into code once.  Both accept the same trees, up to
extension nodes without a reduction: of those the fast strategy falls back to
the tree walk, or fails if it is told to be strict.

`CompiledFn.invoke` calls a compiled function on a call stack of its own.
-/

/-- A function that can be invoked.  The plan is there if the function was
    compiled by the fast strategy. -/
structure CompiledFn where
  callable : Callable Value
  strategy : Strategy
  maxCallDepth : Nat
  plan? : Option Plan

namespace CompiledFn

/-- The number of arguments. -/
def arity (fn : CompiledFn) : Nat := fn.callable.arity

/-- The constants shared by the closures of the function. -/
def constants (fn : CompiledFn) : List Value :=
  match fn.plan? with
  | some plan => plan.constants
  | none => []

/-- Calls a function on a new call stack. -/
def invoke (hosts : Hosts) (fn : CompiledFn) (args : List Value) (supply : Supply) :
    Except RuntimeError Value × Supply :=
  let outcome := call hosts fn.callable args (.new fn.maxCallDepth) supply
  (outcome.result, outcome.supply)

/-- A function as a value. -/
def toValue (fn : CompiledFn) (supply : Supply) : Value × Supply :=
  supply.function fn.callable

end CompiledFn

namespace Lambda

/-- The function that walks the tree. -/
def interpret (lambda : Lambda Value) (options : CompilerOptions) : CompiledFn :=
  ⟨.interpreted lambda.params lambda.body [], .baseline, options.maxCallDepth, none⟩

/-- Baseline compilation: validates the tree. -/
def compile (lambda : Lambda Value) (options : CompilerOptions) :
    Except CompileError CompiledFn := do
  let _ ← lambda.validate options.maxTreeDepth
  return lambda.interpret options

/-- Fast compilation: validates the tree and emits code.  A tree that is not
    supported is an error if `strict`, and otherwise left to the baseline. -/
def compileFast (lambda : Lambda Value) (options : CompilerOptions) (strict : Bool) :
    Except CompileError CompiledFn := do
  let _ ← lambda.validate options.maxTreeDepth
  match lambda.emit options with
  | .ok (callable, plan) => return ⟨callable, .fast, options.maxCallDepth, some plan⟩
  | .error (.notSupported what) =>
    if strict then throw (.notSupported what) else return lambda.interpret options
  | .error error => throw error

/-- Compilation by either strategy. -/
def compileBy (lambda : Lambda Value) (strategy : Strategy) (options : CompilerOptions)
    (strict : Bool) : Except CompileError CompiledFn :=
  match strategy with
  | .baseline => lambda.compile options
  | .fast => lambda.compileFast options strict

end Lambda

/-! ### Running both strategies -/

/-- What the two strategies made of the same arguments. -/
structure Comparison where
  expected : Except RuntimeError Value
  actual : Except RuntimeError Value
  watermark : Nat

/-- Whether the two results agree: equivalent values, or equal errors. -/
def Comparison.agrees (comparison : Comparison) : Bool :=
  match comparison.expected, comparison.actual with
  | .ok expected, .ok actual => expected.equivalent comparison.watermark actual
  | .error expected, .error actual => expected == actual
  | _, _ => false

/-- Invokes one function after the other; the watermark is that before both. -/
def CompiledFn.compare (hosts : Hosts) (baseline fast : CompiledFn) (args : List Value)
    (supply : Supply) : Comparison × Supply :=
  let watermark := supply.nextObject
  let (expected, supply) := baseline.invoke hosts args supply
  let (actual, supply) := fast.invoke hosts args supply
  (⟨expected, actual, watermark⟩, supply)

end ExprTree
