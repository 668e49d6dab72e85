import ExprTree.Expr.Basic

namespace ExprTree

/-!
# The text of a tree

Trees print in the form in which they are built, for instance
`Lambda((x) => New(A, Constant(Q#1), (x + Constant(1))))`.  What stands between
the brackets of a constant is up to the caller.
-/

variable {κ : Type}

/-- A name followed by its arguments, in one pair of brackets. -/
def callText (name : String) (parts : List String) : String :=
  name ++ "(" ++ ", ".intercalate parts ++ ")"

mutual

/-- How a tree is written, with `constantText` for the constants. -/
def Expr.text (constantText : κ → String) : Expr κ → String
  | .constant value => callText "Constant" [constantText value]
  | .parameter param => param.name
  | .new cls args => callText "New" (cls.name :: Expr.texts constantText args)
  | .field target name => target.text constantText ++ "." ++ name
  | .unary op operand => callText op.symbol [operand.text constantText]
  | .binary op left right =>
    "(" ++ left.text constantText ++ " " ++ op.symbol ++ " " ++ right.text constantText ++ ")"
  | .conditional test yes no =>
    "(" ++ test.text constantText ++ " ? " ++ yes.text constantText ++ " : "
      ++ no.text constantText ++ ")"
  | .lambda params body =>
    "Lambda(" ++ callText "" (params.map (·.name)) ++ " => " ++ body.text constantText ++ ")"
  | .invoke target args =>
    callText "Invoke" (target.text constantText :: Expr.texts constantText args)
  | .extension node operands _ =>
    callText "Extension" (node.name :: Expr.texts constantText operands)

/-- How several trees are written. -/
def Expr.texts (constantText : κ → String) : List (Expr κ) → List String
  | [] => []
  | expr :: rest => expr.text constantText :: Expr.texts constantText rest

end

/-- How a lambda is written. -/
def Lambda.text (constantText : κ → String) (lambda : Lambda κ) : String :=
  lambda.toExpr.text constantText

end ExprTree
