import Mathlib.Algebra.GroupWithZero.Nat
import Mathlib.Algebra.BigOperators.Group.List.Defs
import SharedExpr.Layout.Render

/-!
# Documents on one line

A group that is put on one line writes its texts, with a space for each of its lines. What it takes
of the line is then known in advance, and the width is asked about nothing else.

* `Doc.oneLine`, `measured` — the pieces of a document on one line, and the columns of pieces.
* `Layout.renderFrom_flat` — a part that is on one line adds these pieces and nothing more.
* `Layout.fits_flat_iff` — **a part fits on its line if its pieces do, and what follows fits behind
  them**.
-/

namespace SharedExpr

variable {σ : Type}

/-- The columns that a piece takes of its line; the indentation counts to the line it begins. -/
def Piece.columns : Piece σ → ℕ
  | text _ content => Text.width content
  | space => 1
  | newline indent => indent

/-- The columns that pieces of one line take, each text being measured for itself. -/
def measured (ps : List (Piece σ)) : ℕ :=
  (ps.map Piece.columns).sum

/-- No pieces take no columns. -/
@[simp] theorem measured_nil : measured ([] : List (Piece σ)) = 0 := rfl

/-- Pieces take the columns of the first one and of the rest. -/
@[simp] theorem measured_cons (p : Piece σ) (ps : List (Piece σ)) :
    measured (p :: ps) = p.columns + measured ps := by
  simp [measured]

/-- Pieces in a row take the columns of both parts. -/
@[simp] theorem measured_append (ps qs : List (Piece σ)) :
    measured (ps ++ qs) = measured ps + measured qs := by
  simp [measured]

namespace Doc

/-- The pieces of a document of which no line ends. -/
def oneLine : Doc σ → List (Piece σ)
  | empty => []
  | text style content => [.text style content]
  | line => [.space]
  | append first second => first.oneLine ++ second.oneLine
  | nest _ body | group body => body.oneLine

/-- On one line, documents stand with a space in front of each. -/
theorem oneLine_lines (ds : List (Doc σ)) :
    (lines ds).oneLine = ds.flatMap fun d => .space :: d.oneLine := by
  induction ds with
  | nil => rfl
  | cons d ds ih => simp [oneLine, ih]

/-- On one line no line ends. -/
theorem newline_notMem_oneLine (d : Doc σ) (indent : ℕ) : .newline indent ∉ d.oneLine := by
  induction d with
  | empty | text | line => simp [oneLine]
  | append first second ihf ihs => simp [oneLine, ihf, ihs]
  | nest n body ih | group body ih => exact ih

end Doc

namespace Layout

variable {width column indent : ℕ} {rest : List (Frame σ)}

/-- **A part that is on one line adds its pieces.** -/
theorem renderFrom_flat (d : Doc σ) (out : Array (Piece σ)) :
    renderFrom width column (⟨indent, .flat, d⟩ :: rest) out =
      renderFrom width (column + measured d.oneLine) rest (out ++ d.oneLine) := by
  induction d generalizing column indent rest out with
  | empty => simp [renderFrom, Doc.oneLine]
  | text style content => simp [renderFrom, Doc.oneLine, Piece.columns]
  | line => simp [renderFrom, Doc.oneLine, Piece.columns]
  | append first second ihf ihs =>
      have hpieces : out ++ first.oneLine ++ second.oneLine =
          out ++ (first.append second).oneLine :=
        Array.toList_inj.1 (by simp [Doc.oneLine])
      rw [renderFrom, ihf, ihs, hpieces, Nat.add_assoc, ← measured_append]
      rfl
  | nest n body ih =>
      rw [renderFrom, ih]
      rfl
  | group body ih =>
      rw [renderFrom, ih]
      rfl

/-- **A part fits on its line if its pieces do, and what follows fits behind them.** -/
theorem fits_flat_iff (d : Doc σ) (hcolumn : column ≤ width) :
    fits width column (⟨indent, .flat, d⟩ :: rest) ↔
      column + measured d.oneLine ≤ width ∧ fits width (column + measured d.oneLine) rest := by
  induction d generalizing column indent rest with
  | empty => simp [fits, Doc.oneLine, hcolumn]
  | text style content => simp [fits, Doc.oneLine, Piece.columns]
  | line => simp [fits, Doc.oneLine, Piece.columns]
  | append first second ihf ihs =>
      rw [fits, ihf hcolumn]
      simp only [Doc.oneLine, measured_append]
      constructor
      · rintro ⟨hfirst, hsecond⟩
        rw [ihs hfirst] at hsecond
        rwa [← Nat.add_assoc]
      · rintro ⟨hboth, hrest⟩
        have hfirst : column + measured first.oneLine ≤ width := by omega
        rw [ihs hfirst, Nat.add_assoc]
        exact ⟨hfirst, hboth, hrest⟩
  | nest n body ih =>
      rw [fits, ih hcolumn]
      rfl
  | group body ih =>
      rw [fits, ih hcolumn]
      rfl

end Layout

end SharedExpr
