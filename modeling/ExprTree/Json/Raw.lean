import ExprTree.Json.Token

namespace ExprTree

/-!
# JSON as written

A `RawJson` is what a text says before anything is decided about it: members
stand in the order of the text, of one key as many as there are, and numbers and
strings without a value are kept.  `RawJson.parse?` reads one from a text, at any
depth; `RawJson.toJson?` makes a value of it:

* of several members of one key the last one counts;
* a number or string without a value has none, nor has anything around it;
* so has a value with more than `room` brackets around one another.
-/

/-- A value as it is written. -/
inductive RawJson where
  | null
  | bool (b : Bool)
  | number (value : Option JsonNumber)
  | string (value : Option String)
  | array (items : List RawJson)
  | object (members : List (Option String × RawJson))

namespace RawJson

/-! ### Reading tokens -/

/-- A bracket that has not been closed, with what stands in it so far, the last one first. -/
inductive Frame where
  | array (before : List RawJson)
  | object (before : List (Option String × RawJson)) (key : Option String)

/-- What was read, and with it what may come next. -/
inductive Progress where
  | atValue (frames : List Frame)
  | atFirstItem (frames : List Frame)
  | atFirstKey (frames : List Frame)
  | atKey (before : List (Option String × RawJson)) (frames : List Frame)
  | atColon (before : List (Option String × RawJson)) (key : Option String) (frames : List Frame)
  | done (value : RawJson) (frames : List Frame)

namespace Progress

/-- Reads a token with which a value begins. -/
def start (frames : List Frame) : JsonToken → Option Progress
  | .null => some (.done .null frames)
  | .bool b => some (.done (.bool b) frames)
  | .number value => some (.done (.number value) frames)
  | .string value => some (.done (.string value) frames)
  | .openArray => some (.atFirstItem frames)
  | .openObject => some (.atFirstKey frames)
  | _ => none

/-- Reads a token. -/
def step : Progress → JsonToken → Option Progress
  | .atValue frames, token => start frames token
  | .atFirstItem frames, .closeArray => some (.done (.array []) frames)
  | .atFirstItem frames, token => start (.array [] :: frames) token
  | .atFirstKey frames, .closeObject => some (.done (.object []) frames)
  | .atFirstKey frames, .string key => some (.atColon [] key frames)
  | .atKey before frames, .string key => some (.atColon before key frames)
  | .atColon before key frames, .colon => some (.atValue (.object before key :: frames))
  | .done value (.array before :: frames), .comma =>
    some (.atValue (.array (value :: before) :: frames))
  | .done value (.array before :: frames), .closeArray =>
    some (.done (.array (value :: before).reverse) frames)
  | .done value (.object before key :: frames), .comma =>
    some (.atKey ((key, value) :: before) frames)
  | .done value (.object before key :: frames), .closeObject =>
    some (.done (.object ((key, value) :: before).reverse) frames)
  | _, _ => none

end Progress

/-- The value that tokens are of, all of them. -/
def ofTokens? (tokens : List JsonToken) : Option RawJson :=
  match tokens.foldlM Progress.step (.atValue []) with
  | some (.done value []) => some value
  | _ => none

/-- The value that a text is of. -/
def parse? (text : String) : Option RawJson :=
  (JsonToken.scan text.toList).bind ofTokens?

/-! ### Values -/

mutual

/-- The value that is written, if it has one with at most `room` brackets around one another. -/
def toJson? (room : Nat) : RawJson → Option Json
  | null => some .null
  | bool b => some (.bool b)
  | number value => value.map .number
  | string value => value.map .string
  | array items =>
    if room = 0 then none else (itemsToJson? (room - 1) items).map .array
  | object members =>
    if room = 0 then none else (membersToJson? (room - 1) [] members).map .object

/-- The items of an array. -/
def itemsToJson? (room : Nat) : List RawJson → Option (List Json)
  | [] => some []
  | item :: rest => do
    let item ← item.toJson? room
    let rest ← itemsToJson? room rest
    return item :: rest

/-- The members of an object, added to those `before` them. -/
def membersToJson? (room : Nat) (before : List (String × Json)) :
    List (Option String × RawJson) → Option (List (String × Json))
  | [] => some before
  | (key, value) :: rest => do
    let key ← key
    let value ← value.toJson? room
    membersToJson? room (Json.insertMember key value before) rest

end

end RawJson

/-- Brackets that may stand around one another in a text. -/
def jsonRoom : Nat := 127

/-- The value of a text. -/
def Json.parse? (text : String) : Option Json :=
  (RawJson.parse? text).bind (·.toJson? jsonRoom)

end ExprTree
