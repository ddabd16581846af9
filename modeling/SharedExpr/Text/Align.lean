/-!
# Text in columns

Filling a text up with spaces to a number of characters, at the right, at the left or on both
sides. A text that is already long enough is left alone; nothing is ever cut.
-/

namespace SharedExpr.Text

/-- A run of spaces. -/
def spaces (n : Nat) : String :=
  String.ofList (List.replicate n ' ')

/-- The text at the left of a column of `width` characters. -/
def alignLeft (width : Nat) (s : String) : String :=
  s ++ spaces (width - s.length)

/-- The text at the right of a column of `width` characters. -/
def alignRight (width : Nat) (s : String) : String :=
  spaces (width - s.length) ++ s

/-- The text in the middle of a column of `width` characters; an odd space goes to the right. -/
def alignCentre (width : Nat) (s : String) : String :=
  let missing := width - s.length
  spaces (missing / 2) ++ s ++ spaces (missing - missing / 2)

/-- As many spaces are made as are asked for. -/
@[simp] theorem length_spaces (n : Nat) : (spaces n).length = n := by
  simp [spaces]

/-- A text aligned to the left fills the width, and is not cut. -/
theorem length_alignLeft (width : Nat) (s : String) :
    (alignLeft width s).length = max width s.length := by
  simp only [alignLeft, String.length_append, length_spaces]
  omega

/-- A text aligned to the right fills the width, and is not cut. -/
theorem length_alignRight (width : Nat) (s : String) :
    (alignRight width s).length = max width s.length := by
  simp only [alignRight, String.length_append, length_spaces]
  omega

/-- A text in the middle fills the width, and is not cut. -/
theorem length_alignCentre (width : Nat) (s : String) :
    (alignCentre width s).length = max width s.length := by
  simp only [alignCentre, String.length_append, length_spaces]
  omega

end SharedExpr.Text
