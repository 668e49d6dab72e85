namespace ExprTree

/-!
# JSON values

A `Json` is a JSON value.  Numbers are integers of 64 bits, signed or unsigned,
or doubles.  The members of an object are a list, in the order in which they are
written; `Json.insertMember` builds the sorted, duplicate-free lists that
objects read from a text have.
-/

/-- A JSON number. -/
inductive JsonNumber where
  | integer (n : Int)
  | double (x : Float)

/-- A JSON value. -/
inductive Json where
  | null
  | bool (b : Bool)
  | number (n : JsonNumber)
  | string (s : String)
  | array (items : List Json)
  | object (members : List (String × Json))

/-- Integers and doubles are different numbers; doubles are compared as such. -/
protected def JsonNumber.beq : JsonNumber → JsonNumber → Bool
  | integer m, integer n => m == n
  | double x, double y => x == y
  | _, _ => false

instance : BEq JsonNumber := ⟨JsonNumber.beq⟩

/-- The nearest double. -/
def JsonNumber.toFloat : JsonNumber → Float
  | integer n => Float.ofInt n
  | double x => x

namespace Json

mutual

/-- Equality of values, member by member. -/
protected def beq : Json → Json → Bool
  | null, null => true
  | bool a, bool b => a == b
  | number a, number b => a == b
  | string a, string b => a == b
  | array a, array b => Json.itemsBeq a b
  | object a, object b => Json.membersBeq a b
  | _, _ => false

/-- Equality of the items of arrays. -/
protected def itemsBeq : List Json → List Json → Bool
  | [], [] => true
  | a :: as, b :: bs => Json.beq a b && Json.itemsBeq as bs
  | _, _ => false

/-- Equality of the members of objects. -/
protected def membersBeq : List (String × Json) → List (String × Json) → Bool
  | [], [] => true
  | (k, a) :: as, (l, b) :: bs => k == l && Json.beq a b && Json.membersBeq as bs
  | _, _ => false

end

instance : BEq Json := ⟨Json.beq⟩

/-- Puts a member into a list sorted by key, in place of the one of its key. -/
def insertMember (key : String) (value : Json) :
    List (String × Json) → List (String × Json)
  | [] => [(key, value)]
  | (other, old) :: rest =>
    if key < other then (key, value) :: (other, old) :: rest
    else if key = other then (key, value) :: rest
    else (other, old) :: insertMember key value rest

end Json

end ExprTree
