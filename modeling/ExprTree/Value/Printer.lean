import ExprTree.Expr.Printer
import ExprTree.Number.Printer
import ExprTree.Text.Quoted
import ExprTree.Value.Basic

namespace ExprTree

/-!
# The text of a value

`Value.text` writes scalars plainly and objects as `Class#id`;
`Value.expandedText` quotes strings and shows the fields of objects at every
level.  In trees, constants are written in the first form with strings quoted.
-/

namespace Value

/-- An object or function without its content. -/
def objectText (id : Nat) (cls : ClassDef) : String := cls.name ++ "#" ++ toString id

/-- The short form of a value. -/
def text : Value → String
  | none => "None"
  | bool b => if b then "true" else "false"
  | number n => n.text
  | string s => s
  | object id cls _ => objectText id cls
  | function _ callable => "function/" ++ toString callable.arity

mutual

/-- The long form of a value: strings in quotes, objects with their fields. -/
def expandedText : Value → String
  | string s => Text.quote s
  | object id cls fields =>
    if fields.isEmpty then objectText id cls
    else
      objectText id cls ++ " \x7b " ++ ", ".intercalate (fieldTexts cls.fields fields) ++ " \x7d"
  | value => value.text

/-- Each field of an object as its name and its long form. -/
def fieldTexts : List Field → List Value → List String
  | field :: fields, value :: values =>
    (field.name ++ ": " ++ value.expandedText) :: fieldTexts fields values
  | _, _ => []

end

/-- A value as a constant of a tree. -/
def constantText : Value → String
  | string s => Text.quote s
  | value => value.text

end Value

/-- How a tree over values is written. -/
def Expr.display (expr : Expr Value) : String := expr.text Value.constantText

/-- How a lambda over values is written. -/
def Lambda.display (lambda : Lambda Value) : String := lambda.text Value.constantText

end ExprTree
