import Mathlib.Data.List.Forall2
import SharedExpr.Proofs.Print.Layout

/-!
# Rows of printed expressions

What the law of the layout comes to for the rows of a printed expression and for greater widths. In
a row there is a space between operands only if the form around them is on one line, and then the
row ends with that form and the parentheses behind it.

* `rows`, `Outline.keepsRows` — **a row that has a space between operands keeps within the
  width**.
* `Piece.Widened`, `Outline.widened_layout` — **at a greater width spaces are still spaces**, and
  ends of lines may have become spaces.
-/

namespace SharedExpr

variable {σ : Type}

/-! ### Rows -/

/-- The pieces up to the first end of a line, and the rows after it. -/
def splitRows : List (Piece σ) → List (Piece σ) × List (List (Piece σ))
  | [] => ([], [])
  | .text style content :: ps => (.text style content :: (splitRows ps).1, (splitRows ps).2)
  | .space :: ps => (.space :: (splitRows ps).1, (splitRows ps).2)
  | .newline indent :: ps => ([], (.newline indent :: (splitRows ps).1) :: (splitRows ps).2)

/-- The rows of pieces. Each begins with the end of the one before it, which tells its
indentation. -/
def rows (ps : List (Piece σ)) : List (List (Piece σ)) :=
  (splitRows ps).1 :: (splitRows ps).2

/-- The columns that pieces take up to the first end of a line. -/
def reach (ps : List (Piece σ)) : ℕ :=
  measured (splitRows ps).1

/-- Where the pieces begin in a column, rows with a space between operands keep within the width. -/
def RowsFit (width column : ℕ) (ps : List (Piece σ)) : Prop :=
  (.space ∈ (splitRows ps).1 → column + reach ps ≤ width) ∧
    ∀ row ∈ (splitRows ps).2, .space ∈ row → measured row ≤ width

section

variable {width column : ℕ} {ps : List (Piece σ)}

/-- No pieces are too wide. -/
theorem rowsFit_nil : RowsFit width column ([] : List (Piece σ)) := by
  simp [RowsFit, splitRows]

/-- A text moves the column on. -/
theorem rowsFit_text {style : σ} {content : String} :
    RowsFit width column (.text style content :: ps) ↔
      RowsFit width (column + Text.width content) ps := by
  simp [RowsFit, splitRows, reach, Piece.columns, Nat.add_assoc]

/-- Where a space stands, the row up to its end keeps within the width. -/
theorem rowsFit_space :
    RowsFit width column (.space :: ps) ↔
      column + 1 + reach ps ≤ width ∧ RowsFit width (column + 1) ps := by
  simp only [RowsFit, splitRows, reach, measured_cons, Piece.columns, Nat.add_assoc,
    List.mem_cons, true_or, true_implies]
  constructor
  · rintro ⟨hfirst, hlater⟩
    exact ⟨hfirst, fun _ => hfirst, hlater⟩
  · rintro ⟨hfirst, -, hlater⟩
    exact ⟨hfirst, hlater⟩

/-- A new line begins at its indentation. -/
theorem rowsFit_newline {indent : ℕ} :
    RowsFit width column (.newline indent :: ps) ↔ RowsFit width indent ps := by
  simp [RowsFit, splitRows, reach, Piece.columns]

/-- If rows fit from the first column on, a row with a space keeps within the width. -/
theorem RowsFit.measured_le (hps : RowsFit width 0 ps) {row : List (Piece σ)} (hrow : row ∈ rows ps)
    (hspace : .space ∈ row) : measured row ≤ width := by
  rcases List.mem_cons.1 hrow with rfl | hrow
  · simpa [reach] using hps.1 hspace
  · exact hps.2 row hrow hspace

/-! ### Rows that are on one line -/

/-- Without the end of a line, pieces reach as far as they are wide. -/
theorem reach_append {tail : List (Piece σ)} (hps : ∀ indent, .newline indent ∉ ps) :
    reach (ps ++ tail) = measured ps + reach tail := by
  induction ps with
  | nil => simp
  | cons p ps ih =>
      have hrest : reach (ps ++ tail) = measured ps + reach tail :=
        ih fun indent hmem => hps indent (List.mem_cons_of_mem _ hmem)
      cases p with
      | newline indent => exact absurd List.mem_cons_self (hps indent)
      | text style content => simpa [reach, splitRows, Nat.add_assoc] using hrest
      | space => simpa [reach, splitRows, Nat.add_assoc] using hrest

/-- A row that is long enough for pieces of one line, and for what follows them there. -/
theorem rowsFit_append {tail : List (Piece σ)} (hps : ∀ indent, .newline indent ∉ ps)
    (hwidth : column + measured ps + reach tail ≤ width)
    (htail : ∀ column, RowsFit width column tail) : RowsFit width column (ps ++ tail) := by
  induction ps generalizing column with
  | nil => exact htail column
  | cons p ps ih =>
      rw [measured_cons] at hwidth
      have hps' : ∀ indent, .newline indent ∉ ps := fun indent hmem =>
        hps indent (List.mem_cons_of_mem _ hmem)
      have hrest : RowsFit width (column + p.columns) (ps ++ tail) := ih hps' (by omega)
      cases p with
      | newline indent => exact absurd List.mem_cons_self (hps indent)
      | text style content => exact rowsFit_text.2 hrest
      | space =>
          have hspace : column + 1 + reach (ps ++ tail) ≤ width := by
            rw [reach_append hps']
            simp only [Piece.columns] at hwidth
            omega
          exact rowsFit_space.2 ⟨hspace, hrest⟩

end

/-! ### Rows of a printed expression -/

namespace Outline

variable {width closers : ℕ} {tail : List (Piece Style)}

/-- What is laid out begins a line, and `closers` more columns follow on its last row: no row with a
space between operands is too long. -/
def KeepsRows (width : ℕ) (o : Outline) : Prop :=
  ∀ (enclosing : List Place) (tail : List (Piece Style)),
    enclosing.any (Place.fits width) = false → (∀ column, RowsFit width column tail) →
      RowsFit width (2 * enclosing.length) (o.layout width enclosing (reach tail) ++ tail)

/-- The operands of a form that does not fit, and the parenthesis behind them. -/
theorem rowsFit_layouts {forms : List Place} (hforms : forms.any (Place.fits width) = false)
    {os : List Outline} (hos : ∀ o ∈ os, o.KeepsRows width)
    (htail : ∀ column, RowsFit width column tail) (style : Style) (column : ℕ) :
    RowsFit width column
      (layouts width forms (reach tail) os ++ .text style ")" :: tail) := by
  induction os generalizing column with
  | nil => exact rowsFit_text.2 (htail _)
  | cons o os ih =>
      obtain ⟨ho, hos⟩ := List.forall_mem_cons.1 hos
      have hfollow : reach (layouts width forms (reach tail) os ++ .text style ")" :: tail) =
          if os.isEmpty then reach tail + 1 else 0 := by
        cases os with
        | nil =>
            simp [layouts, reach, splitRows, Piece.columns, Layout.width_close, Nat.add_comm]
        | cons o' os => simp [layouts, separator, hforms, reach, splitRows]
      have hseparator : separator width forms = .newline (2 * forms.length) := by
        simp [separator, hforms]
      rw [layouts, hseparator, ← hfollow, List.cons_append, List.append_assoc, rowsFit_newline]
      exact ho forms _ hforms (ih hos)

/-- **A row with a space between operands keeps within the width.** -/
theorem keepsRows (width : ℕ) (o : Outline) : o.KeepsRows width := by
  induction o using induct with
  | atom a =>
      intro enclosing tail _ htail
      exact rowsFit_text.2 (htail _)
  | form head isForm operands ih =>
      intro enclosing tail henclosing htail
      by_cases hfits : (place enclosing (reach tail) (form head isForm operands)).fits width
      · rw [layout_form_of_fits (by simp [hfits])]
        exact rowsFit_append (Doc.newline_notMem_oneLine _) (Place.fits_iff.1 hfits) htail
      · -- the operands are inside of forms that do not fit, this one included
        have hforms : (place enclosing (reach tail) (form head isForm operands) :: enclosing).any
            (Place.fits width) = false := by
          simpa [hfits] using henclosing
        rw [layout, List.cons_append, rowsFit_text, List.cons_append, rowsFit_text,
          List.append_assoc]
        exact rowsFit_layouts hforms ih htail _ _

/-- In a layout, rows with a space between operands keep within the width. -/
theorem rowsFit_layout (width : ℕ) (o : Outline) : RowsFit width 0 (o.layout width [] 0) := by
  have hall := o.keepsRows width [] [] rfl fun _ => rowsFit_nil
  rwa [List.append_nil] at hall

end Outline

/-! ### Greater widths -/

/-- What may become of a piece when the width is raised. -/
inductive Piece.Widened : Piece σ → Piece σ → Prop
  /-- It may stay. -/
  | same (p : Piece σ) : Widened p p
  /-- The end of a line may become a space. -/
  | joined (indent : ℕ) : Widened (.newline indent) .space

namespace Outline

variable {width width' : ℕ}

/-- A larger width puts a space or the same new line between operands. -/
theorem separator_widened (hwidth : width ≤ width') (forms : List Place) :
    (separator width forms).Widened (separator width' forms) := by
  by_cases hfits : forms.any (Place.fits width)
  · have hfits' : forms.any (Place.fits width') := by
      obtain ⟨p, hp, hfits⟩ := List.any_eq_true.1 hfits
      exact List.any_eq_true.2 ⟨p, hp, Place.fits_iff.2 ((Place.fits_iff.1 hfits).trans hwidth)⟩
    simpa [separator, hfits, hfits'] using .same _
  · by_cases hfits' : forms.any (Place.fits width')
    · simpa [separator, hfits, hfits'] using .joined _
    · simpa [separator, hfits, hfits'] using .same _

/-- **At a greater width spaces are still spaces.** -/
theorem widened_layout (hwidth : width ≤ width') (o : Outline) (enclosing : List Place)
    (closers : ℕ) :
    List.Forall₂ Piece.Widened (o.layout width enclosing closers)
      (o.layout width' enclosing closers) := by
  induction o using induct generalizing enclosing closers with
  | atom a => exact .cons (.same _) .nil
  | form head isForm operands ih =>
      have hoperands : ∀ (forms : List Place) (closers : ℕ), List.Forall₂ Piece.Widened
          (layouts width forms closers operands) (layouts width' forms closers operands) := by
        intro forms closers
        induction operands with
        | nil => exact .nil
        | cons o os ihos =>
            obtain ⟨ho, hos⟩ := List.forall_mem_cons.1 ih
            exact .cons (separator_widened hwidth forms)
              (List.rel_append (ho _ _) (ihos hos))
      exact .cons (.same _) (.cons (.same _)
        (List.rel_append (hoperands _ _) (.cons (.same _) .nil)))

end Outline

end SharedExpr
