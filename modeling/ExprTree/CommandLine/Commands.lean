import ExprTree.CommandLine.Arguments
import ExprTree.CommandLine.Demo
import ExprTree.Document.Loader
import ExprTree.Expr.Constants
import ExprTree.Host

namespace ExprTree

/-!
# Executing commands

`Command.execute` says what a command prints and how it fails:

* `run` loads a document, compiles its lambda and invokes it, with either
  strategy or with both, which must agree;
* `dump` prints the lambda of a document and the constants in it;
* `plan` prints what the fast strategy decides about a document;
* `demo` runs the demonstration with both strategies.

Files are given as a function from paths to contents.
-/

/-- Why a command failed. -/
inductive Failure where
  | fileNotFound (path : String)
  | error (error : Error)
  | disagreement (comparison : Comparison) (strategy : Strategy)
  | planMissing
  | notIdentical

/-- A result as a disagreement shows it. -/
def resultText : Except RuntimeError Value → String
  | .ok value => value.expandedText
  | .error error => "error: " ++ error.message

namespace Failure

/-- The code of a failure, if it has one. -/
def code? : Failure → Option String
  | error e => some e.code
  | _ => none

/-- What a failure says. -/
def message? : Failure → Option String
  | fileNotFound path => some ("File not found: " ++ path)
  | error e => e.message?
  | disagreement comparison strategy =>
    some ("Strategies disagree\n  " ++ Strategy.baseline.name ++ ": "
      ++ resultText comparison.expected ++ "\n  " ++ strategy.name ++ ": "
      ++ resultText comparison.actual)
  | planMissing => some "The fast compiler did not produce a closure plan"
  | notIdentical => some "Captured constants are not reference-identical in the result"

/-- What to do about a failure, where there is something to say. -/
def help? : Failure → Option String
  | error e => e.help?
  | _ => none

/-- A failure of an error of one of the stages. -/
def ofError {ε α : Type} (wrap : ε → Error) : Except ε α → Except Failure α
  | .ok a => .ok a
  | .error e => .error (.error (wrap e))

end Failure

/-- What a command prints, and its failure if it fails. -/
structure Report where
  output : String
  failure : Option Failure

/-- A report of a command that prints everything at the end. -/
def Report.ofExcept : Except Failure String → Report
  | .ok output => ⟨output, none⟩
  | .error failure => ⟨"", some failure⟩

namespace Command

/-! ### Documents -/

/-- Loads the document in a file. -/
def loadFile (files : String → Option String) (path : String) :
    Except Failure (LoadedDocument × Supply) :=
  match files path with
  | none => .error (.fileNotFound path)
  | some text =>
    let (result, supply) := (Document.loadText Hosts.standard text).run {}
    (Failure.ofError id result).map fun loaded => (loaded, supply)

/-- An argument: a JSON scalar, or else a string. -/
def argument (text : String) : Except Failure Value :=
  match Json.parse? text with
  | some json => Failure.ofError .document (Value.ofJson json)
  | none => .ok (.string text)

/-- Invokes a lambda with one strategy. -/
def invokeOnly (lambda : Lambda Value) (strategy : Strategy) (options : CompilerOptions)
    (strict : Bool) (args : List Value) (supply : Supply) : Except Failure Value := do
  let fn ← Failure.ofError .compile (lambda.compileBy strategy options strict)
  Failure.ofError .runtime (fn.invoke Hosts.standard args supply).1

/-- Invokes a lambda with both strategies, which must agree. -/
def invokeBoth (lambda : Lambda Value) (options : CompilerOptions) (strict : Bool)
    (args : List Value) (supply : Supply) : Except Failure Value := do
  let baseline ← Failure.ofError .compile (lambda.compile options)
  let fast ← Failure.ofError .compile (lambda.compileFast options strict)
  let comparison := (CompiledFn.compare Hosts.standard baseline fast args supply).1
  if comparison.agrees then Failure.ofError .runtime comparison.expected
  else throw (.disagreement comparison fast.strategy)

/-- What `run` prints. -/
def runText (files : String → Option String) (choice : StrategyChoice) (strict : Bool)
    (options : CompilerOptions) (file : String) (args : List String) :
    Except Failure String := do
  let (loaded, supply) ← loadFile files file
  let args ← args.mapM argument
  let result ← match choice with
    | .only strategy => invokeOnly loaded.lambda strategy options strict args supply
    | .both => invokeBoth loaded.lambda options strict args supply
  return result.expandedText ++ "\n"

/-- What `dump` prints. -/
def dumpText (files : String → Option String) (file : String) : Except Failure String := do
  let (loaded, _) ← loadFile files file
  let constants := loaded.lambda.constants
  return loaded.lambda.display ++ s!"\nconstants: {constants.length}\n"
    ++ Plan.lines Plan.constantLine constants

/-- What `plan` prints. -/
def planText (files : String → Option String) (options : CompilerOptions) (file : String) :
    Except Failure String := do
  let (loaded, _) ← loadFile files file
  let fn ← Failure.ofError .compile (loaded.lambda.compileFast options true)
  match fn.plan? with
  | some found => return found.text
  | none => throw .planMissing

/-! ### The demonstration -/

/-- What the demonstration prints about a path. -/
def verdictLine (verdict : String × Bool) : String :=
  "  " ++ verdict.1 ++ ": " ++ (if verdict.2 then "identical" else "different") ++ "\n"

/-- What the demonstration prints about a function. -/
def demoText (fn : CompiledFn) (result : Value) (verdicts : List (String × Bool)) : String :=
  fn.strategy.name ++ s!" (closure constants: {fn.constants.length})\n"
    ++ "  result: " ++ result.expandedText ++ "\n" ++ String.join (verdicts.map verdictLine)

/-- Runs the demonstration with functions one after the other; what was printed
    before stays printed when one of them fails. -/
def demoRuns (sample : Demo) (output : String) (identical : Bool) (supply : Supply) :
    List CompiledFn → Report
  | [] => ⟨output, if identical then none else some .notIdentical⟩
  | fn :: rest =>
    match fn.invoke Hosts.standard [] supply with
    | (.error error, _) => ⟨output, some (.error (.runtime error))⟩
    | (.ok result, supply) =>
      let verdicts := sample.check result
      demoRuns sample (output ++ demoText fn result verdicts)
        (identical && verdicts.all (·.2)) supply rest

/-- Runs the demonstration. -/
def demoReport (options : CompilerOptions) : Report :=
  let (sample, supply) := Demo.build.run {}
  let output := sample.lambda.display ++ "\n"
  let fns : Except CompileError (List CompiledFn) := do
    let baseline ← sample.lambda.compile options
    let fast ← sample.lambda.compileFast options true
    return [baseline, fast]
  match fns with
  | .error error => ⟨output, some (.error (.compile error))⟩
  | .ok fns => demoRuns sample output true supply fns

/-! ### All commands -/

/-- What a command prints and how it fails. -/
def execute (files : String → Option String) : Command → Report
  | run choice strict options file args =>
    .ofExcept (runText files choice strict options file args)
  | dump file => .ofExcept (dumpText files file)
  | plan options file => .ofExcept (planText files options file)
  | demo options => demoReport options

end Command

end ExprTree
