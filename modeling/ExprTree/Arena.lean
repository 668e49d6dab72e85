namespace ExprTree

/-!
# Arenas

An `Arena` is an append-only list whose positions serve as ids: `alloc` appends
a value, `intern` gives the position of an equal value if there is one and
appends otherwise.  Positions never move.

An id is handed out in 32 bits (`ArenaId`): `insert` puts a value into an arena
and gives its id, `read?` gives the value that an id stands for.
-/

/-- A position in 32 bits. -/
structure ArenaId where
  word : UInt32
  deriving DecidableEq, Repr

namespace ArenaId

/-- The id of a position, of which it keeps the last 32 bits. -/
def ofIndex (index : Nat) : ArenaId := ⟨.ofNat index⟩

/-- The position that an id stands for. -/
def index (id : ArenaId) : Nat := id.word.toNat

end ArenaId

/-- Values by position, in the order in which they came in. -/
structure Arena (α : Type) where
  items : Array α := #[]

namespace Arena

variable {α : Type}

/-- The number of values. -/
def size (arena : Arena α) : Nat := arena.items.size

/-- Whether there are no values. -/
def isEmpty (arena : Arena α) : Bool := arena.size == 0

/-- The values in the order of their positions. -/
def toList (arena : Arena α) : List α := arena.items.toList

/-- The value at a position. -/
def get? (arena : Arena α) (index : Nat) : Option α := arena.items[index]?

/-- The value that an id stands for. -/
def read? (arena : Arena α) (id : ArenaId) : Option α := arena.get? id.index

/-- Appends a value; its position comes first. -/
def alloc (arena : Arena α) (value : α) : Nat × Arena α :=
  (arena.size, ⟨arena.items.push value⟩)

/-- The two ways of putting a value into an arena. -/
inductive Insertion (α : Type)
  | alloc (value : α)
  | intern (value : α)

/-- The value that is put in. -/
def Insertion.value : Insertion α → α
  | .alloc value | .intern value => value

variable [BEq α]

/-- The position of the first equal value. -/
def position? (arena : Arena α) (value : α) : Option Nat :=
  arena.items.findIdx? fun item => item == value

/-- Whether there is an equal value. -/
def contains (arena : Arena α) (value : α) : Bool :=
  arena.items.any fun item => item == value

/-- The position of the first equal value, which is appended if there is none. -/
def intern (arena : Arena α) (value : α) : Nat × Arena α :=
  match arena.position? value with
  | some index => (index, arena)
  | none => arena.alloc value

/-- The id of the first equal value. -/
def find? (arena : Arena α) (value : α) : Option ArenaId :=
  (arena.position? value).map .ofIndex

/-- Puts a value in; its position comes first. -/
def place (arena : Arena α) : Insertion α → Nat × Arena α
  | .alloc value => arena.alloc value
  | .intern value => arena.intern value

/-- Puts a value in; its id comes first. -/
def insert (arena : Arena α) (insertion : Insertion α) : ArenaId × Arena α :=
  let (index, after) := arena.place insertion
  (.ofIndex index, after)

end Arena

end ExprTree
