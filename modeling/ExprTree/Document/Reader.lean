import ExprTree.Document.Basic
import ExprTree.Json.Raw

namespace ExprTree

/-!
# Documents from JSON

`Document.parse?` reads a document.  The forms that it accepts:

* a record is an object or an array.  In an object the known members may stand
  in any order but only once each, and other members are skipped without a look
  at their values.  An array holds the fields in order, and only the last ones
  can be left out;
* a list that may be left out must be an array where it is written, and a type
  that may be left out may also be `null`;
* an expression is an object with one member, whose key is the kind of the
  expression; an operator is its name, or an object with the name as the only
  key and `null` as the value.

As in all JSON, only so many brackets may stand around one another: `room` says
how many are left.  Skipped members do not count.
-/

namespace Document

/-! ### Records and lists -/

/-- The only value of a key; `some none` if there is none. -/
def member? (members : List (Option String × RawJson)) (key : String) :
    Option (Option RawJson) :=
  match members.filter fun member => member.1 == some key with
  | [] => some none
  | [(_, value)] => some (some value)
  | _ => none

/-- The fields of a record, in the order of their names. -/
def record? (names : List String) : RawJson → Option (List (Option RawJson))
  | .object members =>
    if members.all fun member => member.1.isSome then names.mapM (member? members) else none
  | .array items =>
    if items.length ≤ names.length then
      some (items.map some ++ List.replicate (names.length - items.length) none)
    else none
  | _ => none

/-- A string. -/
def string? : RawJson → Option String
  | .string value => value
  | _ => none

/-- The name of a type, where it may be left out. -/
def optionalString? : Option RawJson → Option (Option String)
  | none | some .null => some none
  | some raw => (string? raw).map some

/-- The items of an array. -/
def items? : RawJson → Option (List RawJson)
  | .array items => some items
  | _ => none

/-- A list that is empty where it is left out. -/
def optionalList? {α : Type} (element? : Nat → RawJson → Option α) :
    Nat → Option RawJson → Option (List α)
  | _, none => some []
  | 0, some _ => none
  | room + 1, some raw => do (← items? raw).mapM (element? room)

/-- A field or a parameter. -/
def namedTy? : Nat → RawJson → Option NamedTy
  | 0, _ => none
  | _ + 1, raw => do
    match ← record? ["name", "type"] raw with
    | [some name, ty] => return ⟨← string? name, ← optionalString? ty⟩
    | _ => none

/-- A class. -/
def ClassDecl.ofRaw? : Nat → RawJson → Option ClassDecl
  | 0, _ => none
  | room + 1, raw => do
    match ← record? ["name", "fields"] raw with
    | [some name, fields] => return ⟨← string? name, ← optionalList? namedTy? room fields⟩
    | _ => none

/-! ### Expressions -/

/-- An operator, by way of its name. -/
def operator? {α : Type} (ofName? : String → Option α) (room : Nat) : RawJson → Option α
  | .string name => name.bind ofName?
  | .object [(name, .null)] => if room = 0 then none else name.bind ofName?
  | _ => none

mutual

/-- An expression. -/
def Node.ofRaw? : Nat → RawJson → Option Node
  | room + 1, .object [(some kind, content)] =>
    match kind with
    | "const" => (content.toJson? room).map .literal
    | "ref" => (string? content).map .constant
    | "param" => (string? content).map .parameter
    | "lambda" => do
      let lambda ← LambdaDecl.ofRaw? room content
      return .lambda lambda.params lambda.body
    | kind => Node.ofContent? kind room content
  | _, _ => none

/-- An expression of a kind whose content is a record. -/
def Node.ofContent? (kind : String) : Nat → RawJson → Option Node
  | 0, _ => none
  | room + 1, raw =>
    match kind with
    | "new" => do
      match ← record? ["class", "args"] raw with
      | [some cls, args] =>
        return .new (← string? cls) (← Node.listOfRaw? room args)
      | _ => none
    | "field" => do
      match ← record? ["of", "name"] raw with
      | [some target, some name] => return .field (← Node.ofRaw? room target) (← string? name)
      | _ => none
    | "unary" => do
      match ← record? ["op", "operand"] raw with
      | [some op, some operand] =>
        return .unary (← operator? UnaryOp.ofName? room op) (← Node.ofRaw? room operand)
      | _ => none
    | "binary" => do
      match ← record? ["op", "left", "right"] raw with
      | [some op, some left, some right] =>
        return .binary (← operator? BinaryOp.ofName? room op) (← Node.ofRaw? room left)
          (← Node.ofRaw? room right)
      | _ => none
    | "if" => do
      match ← record? ["test", "then", "else"] raw with
      | [some test, some yes, some no] =>
        return .conditional (← Node.ofRaw? room test) (← Node.ofRaw? room yes)
          (← Node.ofRaw? room no)
      | _ => none
    | "invoke" => do
      match ← record? ["target", "args"] raw with
      | [some target, args] =>
        return .invoke (← Node.ofRaw? room target) (← Node.listOfRaw? room args)
      | _ => none
    | _ => none

/-- A list of expressions that is empty where it is left out. -/
def Node.listOfRaw? : Nat → Option RawJson → Option (List Node)
  | _, none => some []
  | 0, some _ => none
  | room + 1, some raw => do (← items? raw).mapM (Node.ofRaw? room)

/-- A lambda. -/
def LambdaDecl.ofRaw? : Nat → RawJson → Option LambdaDecl
  | 0, _ => none
  | room + 1, raw => do
    match ← record? ["params", "body"] raw with
    | [params, some body] =>
      return ⟨← optionalList? namedTy? room params, ← Node.ofRaw? room body⟩
    | _ => none

end

/-- A constant. -/
def ConstantDecl.ofRaw? : Nat → RawJson → Option ConstantDecl
  | 0, _ => none
  | room + 1, raw => do
    match ← record? ["name", "value"] raw with
    | [some name, some value] => return ⟨← string? name, ← Node.ofRaw? room value⟩
    | _ => none

/-! ### Documents -/

/-- A document. -/
def ofRaw? : Nat → RawJson → Option Document
  | 0, _ => none
  | room + 1, raw => do
    match ← record? ["classes", "constants", "lambda"] raw with
    | [classes, constants, some lambda] =>
      return ⟨← optionalList? ClassDecl.ofRaw? room classes,
        ← optionalList? ConstantDecl.ofRaw? room constants, ← LambdaDecl.ofRaw? room lambda⟩
    | _ => none

/-- The document that a text is of. -/
def parse? (text : String) : Option Document :=
  (RawJson.parse? text).bind (ofRaw? jsonRoom)

end Document

end ExprTree
