import ExprTree.Function

namespace ExprTree

/-!
# A demonstration

The tree `A(q, x, y, z, B(q, x, y, z), C(q, x, y, z))` over four objects.  They
are constants of the tree, so wherever they occur in a result they should be the
same four objects, whichever strategy built it.
-/

/-- The names of the four objects, each with that of its class. -/
def leafNames : List (String × String) := [("q", "Q"), ("x", "X"), ("y", "Y"), ("z", "Z")]

/-- The names of the fields that hold the inner objects. -/
def innerNames : List String := ["b", "c"]

/-- The lambda of the demonstration, and the objects in it by name. -/
structure Demo where
  lambda : Lambda Value
  captured : List (String × Value)

namespace Demo

/-- Takes an id from a supply. -/
def fresh {α : Type} (take : Supply → α × Supply) : StateM Supply α := modifyGet take

/-- Declares the classes, creates the objects and builds the tree. -/
def build : StateM Supply Demo := do
  let leaves ← leafNames.mapM fun (name, cls) => do
    return (name, ← fresh (·.newClass cls []))
  let leafFields : List Field := leaves.map fun (name, cls) => ⟨name, .object cls⟩
  let b ← fresh (·.newClass "B" leafFields)
  let c ← fresh (·.newClass "C" leafFields)
  let a ← fresh (·.newClass "A" (leafFields ++ [⟨"b", .object b⟩, ⟨"c", .object c⟩]))
  let captured ← leaves.mapM fun (name, cls) => do
    return (name, ← fresh (·.object cls []))
  let nodes : List (Expr Value) := captured.map fun (_, object) => .constant object
  return ⟨⟨[], .new a (nodes ++ [.new b nodes, .new c nodes])⟩, captured⟩

/-- The value at the end of a path of fields. -/
def follow (value : Value) (path : List String) : Option Value :=
  path.foldlM (fun value name =>
    match value with
    | .object _ cls fields => Value.fieldOf? cls fields name
    | _ => none) value

/-- The paths in a result at which the objects should be. -/
def paths (demo : Demo) : List (List String × Value) :=
  demo.captured.map (fun (name, object) => ([name], object))
    ++ innerNames.flatMap fun outer =>
      demo.captured.map fun (name, object) => ([outer, name], object)

/-- For each path, whether the object at its end is the one that should be there. -/
def check (demo : Demo) (result : Value) : List (String × Bool) :=
  demo.paths.map fun (path, object) =>
    (".".intercalate path, (follow result path).any fun value => value == object)

end Demo

end ExprTree
