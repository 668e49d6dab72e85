import ExprTree.Json.Basic
import ExprTree.Operator
import ExprTree.Ty.Basic

namespace ExprTree

/-!
# Documents

A document declares classes, constants and one lambda.  It is a tree of names:
types, classes, constants and parameters are referred to by what they are
called, and literals are JSON.  `Document.load` finds out what the names stand
for.
-/

namespace Document

/-- A field or a parameter: a name and the name of its type, if one is given. -/
abbrev NamedTy := Typed (Option String)

/-- A class with its fields in order. -/
structure ClassDecl where
  name : String
  fields : List NamedTy

/-- An expression over names. -/
inductive Node where
  | literal (json : Json)
  | constant (name : String)
  | parameter (name : String)
  | new (cls : String) (args : List Node)
  | field (target : Node) (name : String)
  | unary (op : UnaryOp) (operand : Node)
  | binary (op : BinaryOp) (left right : Node)
  | conditional (test yes no : Node)
  | lambda (params : List NamedTy) (body : Node)
  | invoke (target : Node) (args : List Node)

/-- Parameters and a body. -/
structure LambdaDecl where
  params : List NamedTy
  body : Node

/-- A constant and the expression of its value. -/
structure ConstantDecl where
  name : String
  value : Node

end Document

/-- Classes, constants and a lambda. -/
structure Document where
  classes : List Document.ClassDecl
  constants : List Document.ConstantDecl
  lambda : Document.LambdaDecl

namespace Document

/-! ### Equality -/

deriving instance DecidableEq for ClassDecl

mutual

/-- Equality of expressions; literals are equal as JSON. -/
protected def Node.beq : Node → Node → Bool
  | .literal a, .literal b => a == b
  | .constant a, .constant b => a == b
  | .parameter a, .parameter b => a == b
  | .new cls args, .new cls' args' => cls == cls' && Node.beqAll args args'
  | .field target name, .field target' name' => Node.beq target target' && name == name'
  | .unary op operand, .unary op' operand' => op == op' && Node.beq operand operand'
  | .binary op left right, .binary op' left' right' =>
    op == op' && Node.beq left left' && Node.beq right right'
  | .conditional test yes no, .conditional test' yes' no' =>
    Node.beq test test' && Node.beq yes yes' && Node.beq no no'
  | .lambda params body, .lambda params' body' => params == params' && Node.beq body body'
  | .invoke target args, .invoke target' args' =>
    Node.beq target target' && Node.beqAll args args'
  | _, _ => false

/-- Equality of lists of expressions. -/
protected def Node.beqAll : List Node → List Node → Bool
  | [], [] => true
  | a :: as, b :: bs => Node.beq a b && Node.beqAll as bs
  | _, _ => false

end

instance : BEq Node := ⟨Node.beq⟩

instance : BEq LambdaDecl := ⟨fun a b => a.params == b.params && a.body == b.body⟩

instance : BEq ConstantDecl := ⟨fun a b => a.name == b.name && a.value == b.value⟩

instance : BEq Document := ⟨fun a b =>
  a.classes == b.classes && a.constants == b.constants && a.lambda == b.lambda⟩

end Document

end ExprTree
