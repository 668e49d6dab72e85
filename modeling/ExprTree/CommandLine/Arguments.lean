import ExprTree.Code.Options

namespace ExprTree

/-!
# Command lines

`Command.parse` reads the words of a command line, or says why there is no
command to execute.

A command is a name followed by switches and operands in any order.  A switch
that takes a value finds it behind `=`, right behind its letter, or in the next
word, which must not begin with a dash.  After `--` there are only operands.

Values are looked at one word late: a word is only taken in, and read when
something else begins.  So a word that nothing can be made of is reported before
a wrong value in front of it.
-/

/-! ### Commands -/

/-- Which strategies run a document. -/
inductive StrategyChoice where
  | only (strategy : Strategy)
  | both
  deriving DecidableEq, Repr

/-- The choice of a name. -/
def StrategyChoice.ofName? (name : String) : Option StrategyChoice :=
  if name = "both" then some both else (Strategy.ofName? name).map only

/-- A command. -/
inductive Command where
  | run (choice : StrategyChoice) (strict : Bool) (options : CompilerOptions) (file : String)
      (args : List String)
  | dump (file : String)
  | plan (options : CompilerOptions) (file : String)
  | demo (options : CompilerOptions)
  deriving DecidableEq, Repr

/-- Why there is no command to execute; some of it is what the user asked for. -/
inductive UsageError where
  | displayHelp
  | displayVersion
  | noWords
  | missingSubcommand
  | invalidSubcommand
  | unknownArgument
  | invalidValue
  | valueValidation
  | argumentConflict
  | tooManyValues
  | missingRequiredArgument
  deriving DecidableEq, Repr

/-- The kind of an error, by name. -/
def UsageError.kind : UsageError → String
  | displayHelp => "DisplayHelp"
  | displayVersion => "DisplayVersion"
  | noWords => "DisplayHelpOnMissingArgumentOrSubcommand"
  | missingSubcommand => "MissingSubcommand"
  | invalidSubcommand => "InvalidSubcommand"
  | unknownArgument => "UnknownArgument"
  | invalidValue => "InvalidValue"
  | valueValidation => "ValueValidation"
  | argumentConflict => "ArgumentConflict"
  | tooManyValues => "TooManyValues"
  | missingRequiredArgument => "MissingRequiredArgument"

/-- Whether the user asked for it. -/
def UsageError.isRequest : UsageError → Bool
  | displayHelp | displayVersion => true
  | _ => false

/-! ### Words and switches -/

/-- What a word looks like. -/
inductive WordShape where
  | escape
  | long (name : String) (value : Option String)
  | short (letters : List Char)
  | operand

/-- A text up to its first `=`, and what follows that. -/
def splitEquals : List Char → List Char × Option (List Char)
  | [] => ([], none)
  | '=' :: rest => ([], some rest)
  | c :: rest => let (name, value) := splitEquals rest; (c :: name, value)

/-- The shape of a word.  A dash alone is an operand. -/
def WordShape.ofChars : List Char → WordShape
  | ['-', '-'] => escape
  | '-' :: '-' :: rest =>
    let (name, value) := splitEquals rest
    long (String.ofList name) (value.map String.ofList)
  | '-' :: c :: rest => short (c :: rest)
  | _ => operand

/-- A switch without a value. -/
inductive Flag where
  | help
  | version
  | verbose
  | strict
  | noHoist
  | noFold
  deriving DecidableEq

/-- A switch with a value. -/
inductive ValueSwitch where
  | strategy
  | maxCallDepth
  | maxTreeDepth
  deriving DecidableEq

/-- A switch. -/
inductive Switch where
  | flag (flag : Flag)
  | valued (switch : ValueSwitch)
  deriving DecidableEq

namespace Switch

/-- The name of a switch behind two dashes. -/
def long : Switch → String
  | flag .help => "help"
  | flag .version => "version"
  | flag .verbose => "verbose"
  | flag .strict => "strict"
  | flag .noHoist => "no-hoist"
  | flag .noFold => "no-fold"
  | valued .strategy => "strategy"
  | valued .maxCallDepth => "max-call-depth"
  | valued .maxTreeDepth => "max-tree-depth"

/-- The letter of a switch behind one dash. -/
def short? : Switch → Option Char
  | flag .help => some 'h'
  | flag .version => some 'V'
  | flag .verbose => some 'v'
  | valued .strategy => some 's'
  | _ => none

/-- The switch of a name. -/
def ofLong? (switches : List Switch) (name : String) : Option Switch :=
  switches.find? fun switch => switch.long == name

/-- The switch of a letter. -/
def ofShort? (switches : List Switch) (letter : Char) : Option Switch :=
  switches.find? fun switch => switch.short? == some letter

end Switch

/-- The name of a command. -/
inductive CommandName where
  | run
  | dump
  | plan
  | demo
  deriving DecidableEq

namespace CommandName

/-- The command of a name. -/
def ofName? : String → Option CommandName
  | "run" => some run
  | "dump" => some dump
  | "plan" => some plan
  | "demo" => some demo
  | _ => none

/-- Switches of every command. -/
def commonSwitches : List Switch := [.flag .help, .flag .verbose]

/-- Switches of the commands that compile. -/
def compilerSwitches : List Switch :=
  [.flag .noHoist, .flag .noFold, .valued .maxCallDepth, .valued .maxTreeDepth]

/-- The switches of a command. -/
def switches : CommandName → List Switch
  | run => .valued .strategy :: .flag .strict :: (compilerSwitches ++ commonSwitches)
  | dump => commonSwitches
  | plan | demo => compilerSwitches ++ commonSwitches

/-- Whether a command reads a file, its first operand. -/
def takesFile : CommandName → Bool
  | run | dump | plan => true
  | demo => false

/-- Whether a command takes operands after the file. -/
def takesArguments : CommandName → Bool
  | run => true
  | dump | plan | demo => false

end CommandName

/-! ### Values of switches -/

/-- A natural number in decimal digits. -/
def decimal? (digits : List Char) : Option Nat :=
  if digits.isEmpty || digits.any fun c => !c.isDigit then none
  else some (digits.foldl (fun n c => 10 * n + (c.toNat - '0'.toNat)) 0)

/-- A whole number, with or without a sign. -/
def signedDecimal? : List Char → Option Int
  | '+' :: digits => (decimal? digits).map fun n => (n : Int)
  | '-' :: digits => (decimal? digits).map fun n => -(n : Int)
  | digits => (decimal? digits).map fun n => (n : Int)

/-- A depth of calls: a signed number that is one of 32 bits without a sign. -/
def callDepth? (text : String) : Option Nat :=
  match signedDecimal? text.toList with
  | some n => if 0 ≤ n ∧ n < Nat.pow 2 32 then some n.toNat else none
  | none => none

/-- A depth of trees: a number of 64 bits, which may have a plus sign. -/
def treeDepth? (text : String) : Option Nat :=
  let digits := match text.toList with
    | '+' :: digits => digits
    | digits => digits
  (decimal? digits).filter fun n => n < Nat.pow 2 64

/-! ### Reading the words of a command -/

/-- What the words of a command have set. -/
structure Settings where
  choice : Option StrategyChoice := none
  strict : Bool := false
  noHoist : Bool := false
  noFold : Bool := false
  maxCallDepth : Option Nat := none
  maxTreeDepth : Option Nat := none
  file : Option String := none
  args : List String := []

namespace Settings

/-- Sets what may be set only once. -/
def once {α : Type} (old : Option α) (error : UsageError) (value : Option α) :
    Except UsageError (Option α) :=
  match old, value with
  | some _, _ => .error .argumentConflict
  | none, some value => .ok (some value)
  | none, none => .error error

/-- Turns a flag on. -/
def setFlag (settings : Settings) : Flag → Except UsageError Settings
  | .help => .error .displayHelp
  | .version => .error .displayVersion
  | .verbose => .ok settings
  | .strict =>
    if settings.strict then .error .argumentConflict else .ok { settings with strict := true }
  | .noHoist =>
    if settings.noHoist then .error .argumentConflict else .ok { settings with noHoist := true }
  | .noFold =>
    if settings.noFold then .error .argumentConflict else .ok { settings with noFold := true }

/-- Gives a switch its value. -/
def setValue (settings : Settings) (switch : ValueSwitch) (text : String) :
    Except UsageError Settings := do
  match switch with
  | .strategy =>
    let choice ← once settings.choice .invalidValue (StrategyChoice.ofName? text)
    return { settings with choice }
  | .maxCallDepth =>
    let maxCallDepth ← once settings.maxCallDepth .valueValidation (callDepth? text)
    return { settings with maxCallDepth }
  | .maxTreeDepth =>
    let maxTreeDepth ← once settings.maxTreeDepth .valueValidation (treeDepth? text)
    return { settings with maxTreeDepth }

/-- The options of the compilers. -/
def options (settings : Settings) : CompilerOptions where
  hoistConstants := !settings.noHoist
  foldConstants := !settings.noFold
  maxCallDepth := settings.maxCallDepth.getD CallStack.defaultLimit
  maxTreeDepth := settings.maxTreeDepth.getD defaultTreeDepth

/-- The command that was put together. -/
def command (settings : Settings) (name : CommandName) : Except UsageError Command :=
  match name, settings.file with
  | .demo, _ => .ok (.demo settings.options)
  | _, none => .error .missingRequiredArgument
  | .run, some file =>
    .ok (.run (settings.choice.getD .both) settings.strict settings.options file settings.args)
  | .dump, some file => .ok (.dump file)
  | .plan, some file => .ok (.plan settings.options file)

end Settings

/-- A word that was taken in and is still to be read. -/
inductive Pending where
  | nothing
  | awaiting (switch : ValueSwitch)
  | value (switch : ValueSwitch) (text : String)
  | file (path : String)

/-- How far the words of a command were read. -/
structure Reading where
  settings : Settings := {}
  pending : Pending := .nothing
  onlyOperands : Bool := false

namespace Reading

/-- Reads what is pending. -/
def settle (reading : Reading) : Except UsageError Reading := do
  let settings ← match reading.pending with
    | .nothing => .ok reading.settings
    | .awaiting _ => .error .invalidValue
    | .value switch text => reading.settings.setValue switch text
    | .file path =>
      if path.isEmpty then .error .invalidValue
      else .ok { reading.settings with file := some path }
  return { reading with settings, pending := .nothing }

/-- Meets a flag. -/
def flag (reading : Reading) (flag : Flag) : Except UsageError Reading := do
  let reading ← reading.settle
  let settings ← reading.settings.setFlag flag
  return { reading with settings }

/-- Meets a switch together with its value. -/
def attached (reading : Reading) (switch : ValueSwitch) (text : String) :
    Except UsageError Reading := do
  let reading ← reading.settle
  let settings ← reading.settings.setValue switch text
  return { reading with settings }

/-- Meets a switch whose value is the next word. -/
def await (reading : Reading) (switch : ValueSwitch) : Except UsageError Reading := do
  let reading ← reading.settle
  return { reading with pending := .awaiting switch }

/-- Meets a switch by name. -/
def long (switches : List Switch) (reading : Reading) (name : String)
    (value : Option String) : Except UsageError Reading :=
  match Switch.ofLong? switches name, value with
  | none, _ => .error .unknownArgument
  | some (.flag _), some _ => .error .tooManyValues
  | some (.flag flag), none => reading.flag flag
  | some (.valued switch), some value => reading.attached switch value
  | some (.valued switch), none => reading.await switch

/-- Meets letters behind one dash.  What follows the letter of a switch with a
    value is that value. -/
def short (switches : List Switch) (reading : Reading) :
    List Char → Except UsageError Reading
  | [] => .ok reading
  | letter :: rest =>
    match Switch.ofShort? switches letter with
    | none => .error .unknownArgument
    | some (.flag flag) => do
      let reading ← reading.flag flag
      short switches reading rest
    | some (.valued switch) =>
      match rest with
      | [] => reading.await switch
      | '=' :: value => reading.attached switch (String.ofList value)
      | value => reading.attached switch (String.ofList value)

/-- Whether the file is already there. -/
def hasFile (reading : Reading) : Bool :=
  match reading.pending with
  | .file _ => true
  | _ => reading.settings.file.isSome

/-- Meets an operand. -/
def operand (name : CommandName) (reading : Reading) (text : String) :
    Except UsageError Reading :=
  if name.takesFile && !reading.hasFile then do
    let reading ← reading.settle
    return { reading with pending := .file text }
  else if name.takesArguments then do
    let reading ← reading.settle
    let args := reading.settings.args ++ [text]
    return { reading with settings := { reading.settings with args } }
  else .error .unknownArgument

/-- Meets a word. -/
def word (name : CommandName) (reading : Reading) (text : String) :
    Except UsageError Reading :=
  if reading.onlyOperands then reading.operand name text
  else match WordShape.ofChars text.toList, reading.pending with
    | .escape, _ => .ok { reading with onlyOperands := true }
    | .long switch value, _ => reading.long name.switches switch value
    | .short letters, _ => reading.short name.switches letters
    | .operand, .awaiting switch => .ok { reading with pending := .value switch text }
    | .operand, _ => reading.operand name text

end Reading

/-! ### Reading a whole command line -/

/-- Switches in front of the name of a command. -/
def leadingSwitches : List Switch := .flag .version :: CommandName.commonSwitches

/-- Whether a word is the name of a command or `help`. -/
def isCommandWord (text : String) : Bool :=
  text == "help" || (CommandName.ofName? text).isSome

/-- The answer to `help` and what follows it: the name of a command, if anything. -/
def helpOn : List String → UsageError
  | [] => .displayHelp
  | topic :: rest =>
    if isCommandWord topic && rest.isEmpty then .displayHelp else .invalidSubcommand

/-- The answer to a first operand behind `--`, where no command can be named. -/
def operandInPlaceOfCommand (text : String) : UsageError :=
  if isCommandWord text then .unknownArgument else .invalidSubcommand

namespace Command

/-- The command of the words behind its name. -/
def ofWords (name : CommandName) (words : List String) : Except UsageError Command := do
  let reading ← words.foldlM (Reading.word name) {}
  let reading ← reading.settle
  reading.settings.command name

/-- Reads a command line, where `started` says whether there was a switch before these words. -/
def parseFrom (started : Bool) : List String → Except UsageError Command
  | [] => .error (if started then .missingSubcommand else .noWords)
  | text :: rest =>
    match CommandName.ofName? text with
    | some name => ofWords name rest
    | none =>
      if text = "help" then .error (helpOn rest)
      else match WordShape.ofChars text.toList with
        | .escape =>
          match rest with
          | [] => parseFrom started rest
          | word :: _ => .error (operandInPlaceOfCommand word)
        | .operand => .error .invalidSubcommand
        | .long name value => do
          let _ ← Reading.long leadingSwitches {} name value
          parseFrom true rest
        | .short letters => do
          let _ ← Reading.short leadingSwitches {} letters
          parseFrom true rest

/-- Reads a command line. -/
def parse (words : List String) : Except UsageError Command := parseFrom false words

end Command

end ExprTree
