import SharedExpr.Print.Expression

/-!
# Printing expressions in colours

A coloured print is a row of calls to a pen: take on an appearance, write, drop the appearance. Only
texts of the expression are written with an appearance; the spaces and line ends that the layout
puts in between are written without. On a terminal the calls are control sequences.
-/

namespace SharedExpr

/-- A call to a pen that can change its appearance. -/
inductive PenCall where
  /-- Take on an appearance. -/
  | takeOn (a : Appearance)
  /-- Write a text. -/
  | write (text : String)
  /-- Go back to the appearance of the terminal. -/
  | reset
deriving DecidableEq, Inhabited

/-- The calls that write a piece of a laid out expression. -/
def Piece.penCalls : Piece Style → List PenCall
  | .text style content => [.takeOn style.appearance, .write content, .reset]
  | .space => [.write " "]
  | .newline indent => [.write (Piece.newline (σ := Style) indent).content]

/-- The number of a colour in control sequences. -/
def Colour.code : Colour → Nat
  | .red => 1
  | .green => 2
  | .yellow => 3
  | .blue => 4
  | .magenta => 5
  | .cyan => 6
  | .white => 7

/-- The control sequence of a rendition. -/
def controlSequence (parameter : String) : String :=
  "\x1b[" ++ parameter ++ "m"

/-- The control sequences that make a terminal show an appearance, whatever it showed before. -/
def Appearance.controls (a : Appearance) : String :=
  controlSequence "0"
    ++ (if a.bold then controlSequence "1" else "")
    ++ (if a.dimmed then controlSequence "2" else "")
    ++ a.colour.elim "" fun c => controlSequence ("3" ++ Nat.repr c.code)

/-- What a call sends to a terminal. -/
def PenCall.controls : PenCall → String
  | .takeOn a => a.controls
  | .write text => text
  | .reset => controlSequence "0"

namespace Graph

/-- The calls that print the expression under a handle for a width. -/
def penCalls (g : Graph) (width : Nat) (h : Handle) : List PenCall :=
  ((g.doc h).render width).toList.flatMap Piece.penCalls

/-- The expression under a handle, printed for a width with the control sequences of a terminal. -/
def printColoured (g : Graph) (width : Nat) (h : Handle) : String :=
  (g.penCalls width h).foldl (fun text call => text ++ call.controls) ""

end Graph

/-- A text sent to a receiver that takes `capacity` bytes: all of it, or a refusal. -/
def sendAll? (capacity : Nat) (text : String) : Option String :=
  if text.utf8ByteSize ≤ capacity then some text else none

end SharedExpr
