import ExprTree.Json.Printer
import ExprTree.Json.Raw

namespace ExprTree

/-!
# JSON values that a text can have

Not every `Json` comes out of a text.  What does is limited in three ways:

* `Json.nesting` — so many brackets stand around one another, and a text may have
  `jsonRoom` of them;
* `Json.IsValue` — integers have 64 bits, and objects are sorted by key
  (`Json.fits_of_parse?` finds this of everything that is read);
* `ReadsBack` — a double is printed and read with roundings, and this says that
  they cancel out.  `Json.numbers` lists the numbers of a value.

`Json.inductionOn` is induction over a value, with lists of items and members
taken care of.
-/

/-- A double whose text is read as that double. -/
def ReadsBack (x : Float) : Prop :=
  Json.parse? (Json.number (.double x)).text = some (.number (.double x))

/-- Whether an integer has 64 bits, signed or unsigned.  Doubles have no other
    limits than their type. -/
def JsonNumber.InRange : JsonNumber → Prop
  | integer n => -(Nat.pow 2 63 : Nat) ≤ n ∧ n < wordLimit
  | double _ => True

namespace Json

/-! ### Induction -/

/-- Induction over a value. -/
@[elab_as_elim, induction_eliminator]
theorem inductionOn {motive : Json → Prop} (null : motive null) (bool : ∀ b, motive (bool b))
    (number : ∀ n, motive (number n)) (string : ∀ s, motive (string s))
    (array : ∀ items, (∀ item ∈ items, motive item) → motive (array items))
    (object : ∀ members, (∀ member ∈ members, motive member.2) → motive (object members))
    (json : Json) : motive json :=
  @Json.rec motive (fun items => ∀ item ∈ items, motive item)
    (fun members => ∀ member ∈ members, motive member.2) (fun member => motive member.2)
    null bool number string array object nofun
    (fun _ _ first others => List.forall_mem_cons.2 ⟨first, others⟩) nofun
    (fun _ _ first others => List.forall_mem_cons.2 ⟨first, others⟩) (fun _ _ value => value) json

/-! ### Nesting -/

mutual

/-- How many brackets stand around one another at the deepest place. -/
def nesting : Json → Nat
  | array items => itemsNesting items + 1
  | object members => membersNesting members + 1
  | _ => 0

/-- The nesting of the deepest item. -/
def itemsNesting : List Json → Nat
  | [] => 0
  | item :: items => max item.nesting (itemsNesting items)

/-- The nesting of the deepest member. -/
def membersNesting : List (String × Json) → Nat
  | [] => 0
  | (_, value) :: members => max value.nesting (membersNesting members)

end

/-- Items are nested within some room if each of them is. -/
theorem itemsNesting_le_iff {items : List Json} {room : Nat} :
    itemsNesting items ≤ room ↔ ∀ item ∈ items, item.nesting ≤ room := by
  induction items with
  | nil => simp [itemsNesting]
  | cons item items ih => rw [itemsNesting, Nat.max_le, ih, List.forall_mem_cons]

/-- Members are nested within some room if each of their values is. -/
theorem membersNesting_le_iff {members : List (String × Json)} {room : Nat} :
    membersNesting members ≤ room ↔ ∀ member ∈ members, member.2.nesting ≤ room := by
  induction members with
  | nil => simp [membersNesting]
  | cons member members ih => rw [membersNesting, Nat.max_le, ih, List.forall_mem_cons]

/-- Around an array there is a bracket, and each item has the room that is left. -/
theorem exists_room_of_array {items : List Json} {room : Nat} (h : (array items).nesting ≤ room) :
    ∃ inner, room = inner + 1 ∧ ∀ item ∈ items, item.nesting ≤ inner := by
  obtain ⟨inner, rfl⟩ := Nat.exists_eq_add_of_le' (Nat.one_le_of_lt h)
  exact ⟨inner, rfl, itemsNesting_le_iff.1 (Nat.le_of_succ_le_succ h)⟩

/-- Around an object there is a bracket, and each member has the room that is left. -/
theorem exists_room_of_object {members : List (String × Json)} {room : Nat}
    (h : (object members).nesting ≤ room) :
    ∃ inner, room = inner + 1 ∧ ∀ member ∈ members, member.2.nesting ≤ inner := by
  obtain ⟨inner, rfl⟩ := Nat.exists_eq_add_of_le' (Nat.one_le_of_lt h)
  exact ⟨inner, rfl, membersNesting_le_iff.1 (Nat.le_of_succ_le_succ h)⟩

/-! ### Numbers -/

mutual

/-- The numbers of a value, wherever they stand. -/
def numbers : Json → List JsonNumber
  | number n => [n]
  | array items => itemsNumbers items
  | object members => membersNumbers members
  | _ => []

/-- The numbers of all items. -/
def itemsNumbers : List Json → List JsonNumber
  | [] => []
  | item :: items => item.numbers ++ itemsNumbers items

/-- The numbers of all members. -/
def membersNumbers : List (String × Json) → List JsonNumber
  | [] => []
  | (_, value) :: members => value.numbers ++ membersNumbers members

end

theorem itemsNumbers_eq_flatMap (items : List Json) :
    itemsNumbers items = items.flatMap numbers := by
  induction items with
  | nil => rfl
  | cons item items ih => simp [itemsNumbers, ih]

theorem membersNumbers_eq_flatMap (members : List (String × Json)) :
    membersNumbers members = members.flatMap fun member => member.2.numbers := by
  induction members with
  | nil => rfl
  | cons member members ih => simp [membersNumbers, ih]

theorem mem_itemsNumbers_iff {items : List Json} {n : JsonNumber} :
    n ∈ itemsNumbers items ↔ ∃ item ∈ items, n ∈ item.numbers := by
  rw [itemsNumbers_eq_flatMap, List.mem_flatMap]

theorem mem_membersNumbers_iff {members : List (String × Json)} {n : JsonNumber} :
    n ∈ membersNumbers members ↔ ∃ member ∈ members, n ∈ member.2.numbers := by
  rw [membersNumbers_eq_flatMap, List.mem_flatMap]

/-! ### Values -/

/-- The values that JSON texts have, up to the rounding of doubles: integers have
    64 bits, and an object has its members in the order of their keys, each key
    once. -/
inductive IsValue : Json → Prop
  | null : IsValue null
  | bool (b : Bool) : IsValue (bool b)
  | number {n : JsonNumber} (range : n.InRange) : IsValue (number n)
  | string (s : String) : IsValue (string s)
  | array {items : List Json} (parts : ∀ item ∈ items, IsValue item) : IsValue (array items)
  | object {members : List (String × Json)} (sorted : members.Pairwise fun a b => a.1 < b.1)
      (parts : ∀ member ∈ members, IsValue member.2) : IsValue (object members)

end Json

end ExprTree
