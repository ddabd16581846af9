/-!
# Styles of printed expressions

What the parts of a printed expression are, and how each looks on a terminal that can show colours.
The two parentheses of a form look alike and differ from those of the forms around it: their colour
goes round with the depth of the form.
-/

namespace SharedExpr

/-- The colours in use. -/
inductive Colour where
  /-- Red. -/
  | red
  /-- Green. -/
  | green
  /-- Yellow. -/
  | yellow
  /-- Blue. -/
  | blue
  /-- Magenta. -/
  | magenta
  /-- Cyan. -/
  | cyan
  /-- White. -/
  | white
deriving DecidableEq, Inhabited

/-- How a text looks. -/
structure Appearance where
  /-- Its colour; `none` is the terminal's own. -/
  colour : Option Colour
  /-- Whether it is bold. -/
  bold : Bool
  /-- Whether it is dimmed. -/
  dimmed : Bool
deriving DecidableEq, Inhabited

/-- What a text of a printed expression is. -/
inductive Style where
  /-- A parenthesis of a form with `depth` forms around it. -/
  | paren (depth : Nat)
  /-- The symbol of an operator. -/
  | operator
  /-- The name of a called function. -/
  | callee
  /-- The name of a variable. -/
  | identifier
  /-- An integer. -/
  | literal
  /-- A handle that is not live. -/
  | error
  /-- What stands for forms that are too deep. -/
  | elided
deriving DecidableEq, Inhabited

/-- The colour of the parentheses of a form with `depth` forms around it. -/
def parenColour (depth : Nat) : Colour :=
  match depth % 6 with
  | 0 => .blue
  | 1 => .green
  | 2 => .white
  | 3 => .yellow
  | 4 => .red
  | _ => .magenta

/-- How a style looks. -/
def Style.appearance : Style → Appearance
  | .paren depth => ⟨some (parenColour depth), false, true⟩
  | .operator => ⟨some .yellow, true, false⟩
  | .callee => ⟨some .cyan, true, false⟩
  | .identifier => ⟨some .green, true, false⟩
  | .literal => ⟨some .magenta, false, false⟩
  | .error => ⟨some .red, true, false⟩
  | .elided => ⟨none, false, true⟩

end SharedExpr
