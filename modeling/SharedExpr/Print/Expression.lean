import SharedExpr.Graph.Basic
import SharedExpr.Layout.Render
import SharedExpr.Print.Style

/-!
# Printing expressions

An expression is printed as a form in parentheses: the head, then the operands. Integers and
variables are printed bare. A form that does not fit on its line has each operand on a line of its
own, indented by two (`SharedExpr.Layout.Render` says when it fits).

A shared node is printed wherever it occurs. Forms with `depthLimit` forms around them are printed
as three dots, so printing ends on every graph; bare integers and variables are printed there too.
A handle that is not live is printed as what it is.
-/

namespace SharedExpr

/-- The number of forms around a form from which on it is not printed. -/
def depthLimit : Nat :=
  128

/-- The width for which expressions are printed unless another one is asked for. -/
def standardWidth : Nat :=
  80

/-- What the head of a node is, and how it is written. -/
def Node.headText : Node → Style × String
  | .intLiteral value => (.literal, Int.repr value.toInt)
  | .comparison op _ _ => (.operator, op.symbol)
  | .arithmetic op _ => (.operator, op.symbol)
  | .varUse name => (.identifier, name)
  | .call callee _ => (.callee, callee)

/-- The document of a form with `depth` forms around it. -/
def formDoc (depth : Nat) (head : Doc Style) (operands : List (Doc Style)) : Doc Style :=
  .group (.append (.text (.paren depth) "(")
    (.append head
      (.append (.nest 2 (.lines operands))
        (.text (.paren depth) ")"))))

/-- How a handle is printed that is not live. -/
def Handle.danglingText (h : Handle) : String :=
  "<dangling " ++ h.text ++ ">"

namespace Graph

/-- The document of the expression under a handle that has `depth` forms around it, of which
`remaining` more levels of forms are printed. -/
def docBelow (g : Graph) : (remaining depth : Nat) → Handle → Doc Style
  | remaining, depth, h =>
    match g.node? h with
    | none => .text .error h.danglingText
    | some n =>
      if n.isLeaf then .text n.headText.1 n.headText.2
      else
        match remaining with
        | 0 => .text .elided "..."
        | remaining + 1 =>
          formDoc depth (.text n.headText.1 n.headText.2)
            (n.children.map fun child => g.docBelow remaining (depth + 1) child)

/-- The document of the expression under a handle. -/
def doc (g : Graph) (h : Handle) : Doc Style :=
  g.docBelow depthLimit 0 h

/-- The expression under a handle, printed for a width. -/
def print (g : Graph) (width : Nat) (h : Handle) : String :=
  Piece.contents ((g.doc h).render width)

/-- An account of a handle with the expression under it. -/
def describePrinted (g : Graph) (h : Handle) : String :=
  "PrettyNode(" ++ h.text ++ ": " ++ g.print standardWidth h ++ ")"

end Graph

end SharedExpr
