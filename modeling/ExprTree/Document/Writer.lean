import ExprTree.Document.Basic
import ExprTree.Json.Printer

namespace ExprTree

/-!
# Documents as JSON

`Document.toJson` writes every field of a document except the types that are not
given.  An expression is an object with one member, whose key says what kind of
expression it is.
-/

namespace Document

/-- An expression of a kind. -/
def tagged (kind : String) (content : Json) : Json := .object [(kind, content)]

/-- A field or a parameter. -/
def namedTyToJson (named : NamedTy) : Json :=
  let name := ("name", Json.string named.name)
  match named.ty with
  | some ty => .object [name, ("type", .string ty)]
  | none => .object [name]

/-- A class. -/
def ClassDecl.toJson (cls : ClassDecl) : Json :=
  .object [("name", .string cls.name), ("fields", .array (cls.fields.map namedTyToJson))]

/-- A lambda, around a body that is already written. -/
def lambdaJson (params : List NamedTy) (body : Json) : Json :=
  .object [("params", .array (params.map namedTyToJson)), ("body", body)]

mutual

/-- An expression. -/
def Node.toJson : Node → Json
  | .literal json => tagged "const" json
  | .constant name => tagged "ref" (.string name)
  | .parameter name => tagged "param" (.string name)
  | .new cls args =>
    tagged "new" (.object [("class", .string cls), ("args", .array (Node.allToJson args))])
  | .field target name =>
    tagged "field" (.object [("of", target.toJson), ("name", .string name)])
  | .unary op operand =>
    tagged "unary" (.object [("op", .string op.name), ("operand", operand.toJson)])
  | .binary op left right =>
    tagged "binary"
      (.object [("op", .string op.name), ("left", left.toJson), ("right", right.toJson)])
  | .conditional test yes no =>
    tagged "if" (.object [("test", test.toJson), ("then", yes.toJson), ("else", no.toJson)])
  | .lambda params body => tagged "lambda" (lambdaJson params body.toJson)
  | .invoke target args =>
    tagged "invoke"
      (.object [("target", target.toJson), ("args", .array (Node.allToJson args))])

/-- Several expressions. -/
def Node.allToJson : List Node → List Json
  | [] => []
  | node :: rest => node.toJson :: Node.allToJson rest

end

/-- A lambda. -/
def LambdaDecl.toJson (lambda : LambdaDecl) : Json :=
  lambdaJson lambda.params lambda.body.toJson

/-- A constant. -/
def ConstantDecl.toJson (constant : ConstantDecl) : Json :=
  .object [("name", .string constant.name), ("value", constant.value.toJson)]

/-- A document. -/
def toJson (document : Document) : Json :=
  .object [("classes", .array (document.classes.map ClassDecl.toJson)),
    ("constants", .array (document.constants.map ConstantDecl.toJson)),
    ("lambda", document.lambda.toJson)]

/-- A document as compact JSON. -/
def text (document : Document) : String := document.toJson.text

end Document

end ExprTree
