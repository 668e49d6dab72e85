import ExprTree.Code.Basic
import ExprTree.Value.Printer

namespace ExprTree

/-!
# Closure plans

A `Plan` records what compilation decided: the constants shared by the closures
of a function, the layout of every lambda that was emitted, in the order in
which their bodies start, and how many constants were put into the code and how
many nodes were folded away.
-/

/-- The layout of one lambda; `depth` counts the lambdas around it. -/
structure LambdaLayout where
  depth : Nat
  params : List String
  captures : List Capture
  deriving DecidableEq, Repr

/-- What compilation decided about a function. -/
structure Plan where
  constants : List Value
  lambdas : List LambdaLayout
  inlineConstants : Nat
  foldedNodes : Nat

namespace Plan

/-- The table of the call that creates a closure, and the position there. -/
def sourceText : Slot → String
  | .argument index => s!"args[{index}]"
  | .captured index => s!"captures[{index}]"

/-- One line of the list of lambdas. -/
def layoutText (index : Nat) (layout : LambdaLayout) : String :=
  let slots := ", ".intercalate layout.params
  let captures := ", ".intercalate
    (layout.captures.map fun capture => capture.name ++ " <- " ++ sourceText capture.source)
  s!"  #{index} depth {layout.depth}: slots ({slots}), captures ({captures})\n"

/-- One line of a list of constants. -/
def constantLine (index : Nat) (value : Value) : String :=
  s!"  [{index}] " ++ value.expandedText ++ "\n"

/-- Numbered lines, one for each element. -/
def lines {α : Type} (line : Nat → α → String) (items : List α) : String :=
  String.join (items.mapIdx line)

/-- How a plan is written; the last line is left open. -/
def text (plan : Plan) : String :=
  s!"closure constants: {plan.constants.length}\n" ++ lines constantLine plan.constants
    ++ s!"lambdas: {plan.lambdas.length}\n" ++ lines layoutText plan.lambdas
    ++ s!"inline constants: {plan.inlineConstants}\nfolded nodes: {plan.foldedNodes}"

end Plan

end ExprTree
