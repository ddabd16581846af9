/-!
# Operators and their symbols

The two closed families of operators of the expression language. Each operator has one symbol,
which is how it is written in an expression and how it is read back; reading accepts the symbols
and nothing else (`ofSymbol?_eq_some_iff`), so neither blanks nor other spellings are let through.
-/

namespace SharedExpr

/-- Operators that compare two operands. -/
inductive Comparison where
  /-- Less than. -/
  | lt
  /-- Less than or equal. -/
  | le
  /-- Equal. -/
  | eq
  /-- Greater than. -/
  | gt
  /-- Greater than or equal. -/
  | ge
deriving DecidableEq, Inhabited

/-- Operators that combine any number of operands. -/
inductive Arithmetic where
  /-- Sum. -/
  | add
  /-- Difference. -/
  | sub
  /-- Product. -/
  | mul
  /-- Quotient. -/
  | div
deriving DecidableEq, Inhabited

/-! ## Comparisons -/

namespace Comparison

/-- Every comparison, in the order in which they are listed to a user. -/
def all : List Comparison :=
  [lt, le, eq, gt, ge]

/-- How a comparison is written. -/
def symbol : Comparison → String
  | lt => "<"
  | le => "<="
  | eq => "="
  | gt => ">"
  | ge => ">="

/-- The comparison that is written so. -/
def ofSymbol? (text : String) : Option Comparison :=
  all.find? fun op => op.symbol = text

/-- The comparison written with a symbol is the one that has this symbol. -/
theorem ofSymbol?_eq_some_iff {text : String} {op : Comparison} :
    ofSymbol? text = some op ↔ op.symbol = text := by
  constructor
  · intro h
    simpa using List.find?_some h
  · rintro rfl
    cases op <;> decide

end Comparison

/-! ## Arithmetic -/

namespace Arithmetic

/-- Every arithmetic operator, in the order in which they are listed to a user. -/
def all : List Arithmetic :=
  [add, sub, mul, div]

/-- How an arithmetic operator is written. -/
def symbol : Arithmetic → String
  | add => "+"
  | sub => "-"
  | mul => "*"
  | div => "/"

/-- The arithmetic operator that is written so. -/
def ofSymbol? (text : String) : Option Arithmetic :=
  all.find? fun op => op.symbol = text

/-- The arithmetic operation written with a symbol is the one that has this symbol. -/
theorem ofSymbol?_eq_some_iff {text : String} {op : Arithmetic} :
    ofSymbol? text = some op ↔ op.symbol = text := by
  constructor
  · intro h
    simpa using List.find?_some h
  · rintro rfl
    cases op <;> decide

end Arithmetic

end SharedExpr
