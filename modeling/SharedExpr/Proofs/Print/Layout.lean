import SharedExpr.Proofs.Print.OneLine
import SharedExpr.Proofs.Print.Outline

/-!
# Which forms are printed on one line

A form is decided upon when it is met, and all that is known then is the column and what is still to
be laid out. Forms are met at the beginning of a line only, as long as none of those around them is
on one line, and behind a form there is nothing up to the end of its line but the parentheses of
forms that end with it. So the decision can be told from the expression.

* `Place.fits`, `Outline.layout` — the law: a form is on one line if it, or a form around it, would
  fit on a line of its own with the parentheses behind it. Otherwise each of its operands begins a
  line. `Outline.layout_eq_oneLine_iff` says that this is what it comes to for each form.
* `Layout.Trailing`, `Layout.fits_formDoc_iff` — what is known of the frames behind a form, and that
  it is enough to decide upon the form.
* `Outline.keepsLaw` — **the printer keeps to the law**.
* `Graph.toList_render_doc`, `Graph.toList_print` — so what is printed of a handle is its outline,
  laid out by the law.
-/

namespace SharedExpr

/-! ### The law -/

/-- Where a form stands. -/
structure Place where
  /-- The number of forms around it. -/
  depth : ℕ
  /-- The columns that it takes on one line. -/
  columns : ℕ
  /-- The number of forms around it whose parentheses follow at once, since they end with it. -/
  closers : ℕ

/-- Whether a form fits on a line of its own, with the parentheses that follow at once. -/
def Place.fits (width : ℕ) (p : Place) : Bool :=
  2 * p.depth + p.columns + p.closers ≤ width

/-- A form fits if its indentation, its columns and what closes behind it keep within the width. -/
theorem Place.fits_iff {width : ℕ} {p : Place} :
    p.fits width ↔ 2 * p.depth + p.columns + p.closers ≤ width :=
  decide_eq_true_iff

/-- What is in front of each operand of the innermost of some forms, which are around one another: a
space if one of the forms fits, and a new line with their indentation otherwise. -/
def separator (width : ℕ) (forms : List Place) : Piece Style :=
  if forms.any (Place.fits width) then .space else .newline (2 * forms.length)

namespace Outline

/-- Where an outline stands inside of some forms. -/
def place (enclosing : List Place) (closers : ℕ) (o : Outline) : Place where
  depth := enclosing.length
  columns := measured (o.doc enclosing.length).oneLine
  closers := closers

mutual

/-- How an outline is laid out inside of the forms `enclosing`, the innermost first, of which the
first `closers` end with it. -/
def layout (width : ℕ) (enclosing : List Place) (closers : ℕ) : Outline → List (Piece Style)
  | .atom a => [.text a.style a.text]
  | .form head isForm operands =>
    .text (.paren enclosing.length) "(" :: .text head.style head.text ::
      (layouts width (place enclosing closers (.form head isForm operands) :: enclosing) closers
          operands ++
        [.text (.paren enclosing.length) ")"])

/-- How the operands of the innermost of some forms are laid out; behind that form, the first
`closers` of the forms around it end. -/
def layouts (width : ℕ) (forms : List Place) (closers : ℕ) : List Outline → List (Piece Style)
  | [] => []
  | o :: os =>
    separator width forms ::
      (layout width forms (if os.isEmpty then closers + 1 else 0) o ++
        layouts width forms closers os)

end

/-! ### Forms on one line -/

variable {width closers : ℕ} {enclosing : List Place}

/-- On one line a form is its head and its operands, with spaces between them and parentheses
around. -/
theorem oneLine_doc_form (depth : ℕ) (head : Head) (isForm : head.isLeaf = false)
    (operands : List Outline) :
    ((form head isForm operands).doc depth).oneLine =
      .text (.paren depth) "(" :: .text head.style head.text ::
        (operands.flatMap (fun o => .space :: (o.doc (depth + 1)).oneLine) ++
          [.text (.paren depth) ")"]) := by
  simp [doc, formDoc, Doc.oneLine, Doc.oneLine_lines, docs_eq_map, List.flatMap_map]

/-- If a form around them fits, operands are laid out on one line. -/
theorem layouts_of_fits {forms : List Place} (hfits : forms.any (Place.fits width))
    {os : List Outline} (hos : ∀ o ∈ os, ∀ closers,
      o.layout width forms closers = (o.doc forms.length).oneLine) :
    layouts width forms closers os =
      os.flatMap fun o => .space :: (o.doc forms.length).oneLine := by
  induction os with
  | nil => rfl
  | cons o os ih =>
      obtain ⟨ho, hos⟩ := List.forall_mem_cons.1 hos
      simp [layouts, separator, hfits, ho, ih hos]

/-- Inside of a form that fits, all is on one line. -/
theorem layout_of_fits (o : Outline) (hfits : enclosing.any (Place.fits width)) :
    o.layout width enclosing closers = (o.doc enclosing.length).oneLine := by
  induction o using induct generalizing enclosing closers with
  | atom a => rfl
  | form head isForm operands ih =>
      rw [layout, oneLine_doc_form, layouts_of_fits (by simp [hfits]) fun o ho closers =>
        ih o ho (by simp [hfits])]
      rfl

/-- A form is on one line if it fits or a form around it does. -/
theorem layout_form_of_fits {head : Head} {isForm : head.isLeaf = false} {operands : List Outline}
    (hfits : (place enclosing closers (form head isForm operands) :: enclosing).any
      (Place.fits width)) :
    (form head isForm operands).layout width enclosing closers =
      ((form head isForm operands).doc enclosing.length).oneLine := by
  rw [layout, oneLine_doc_form, layouts_of_fits hfits fun o _ _ => o.layout_of_fits hfits]
  rfl

/-- **A form with operands is on one line exactly if it fits or a form around it does.** -/
theorem layout_eq_oneLine_iff {head : Head} {isForm : head.isLeaf = false}
    {operands : List Outline} (hoperands : operands ≠ []) :
    (form head isForm operands).layout width enclosing closers =
        ((form head isForm operands).doc enclosing.length).oneLine ↔
      (place enclosing closers (form head isForm operands) :: enclosing).any (Place.fits width) := by
  constructor
  · intro hone
    by_contra hbroken
    -- then there is the end of a line in front of the first operand
    obtain ⟨o, os, rfl⟩ := List.exists_cons_of_ne_nil hoperands
    refine Doc.newline_notMem_oneLine ((form head isForm (o :: os)).doc enclosing.length)
      (2 * (enclosing.length + 1)) ?_
    rw [← hone]
    simp [layout, layouts, separator, hbroken]
  · exact layout_form_of_fits

end Outline

/-! ### What follows a form -/

namespace Layout

variable {width column closers indent : ℕ} {rest : List (Frame Style)}

/-- Behind what is laid out, `closers` more columns are written before a line ends. -/
def Trailing (width : ℕ) (rest : List (Frame Style)) (closers : ℕ) : Prop :=
  ∀ column ≤ width, (fits width column rest ↔ column + closers ≤ width)

/-- Nothing is written behind the last line. -/
theorem trailing_nil : Trailing width [] 0 := by
  intro column hcolumn
  simpa [fits] using hcolumn

/-- Nothing is written behind what a new line follows. -/
theorem trailing_line (d : Doc Style) (ds : List (Doc Style)) :
    Trailing width (⟨indent, .broken, .lines (d :: ds)⟩ :: rest) 0 := by
  intro column hcolumn
  simpa [fits] using hcolumn

/-- An opening parenthesis takes one column. -/
theorem width_open : Text.width "(" = 1 := by
  decide +kernel

/-- A closing parenthesis takes one column. -/
theorem width_close : Text.width ")" = 1 := by
  decide +kernel

/-- A parenthesis is one more column. -/
theorem Trailing.close {indent' : ℕ} {mode : Mode} {style : Style}
    (hrest : Trailing width rest closers) :
    Trailing width (⟨indent', .broken, .lines []⟩ :: ⟨indent, mode, .text style ")"⟩ :: rest)
      (closers + 1) := by
  intro column _
  simp only [Doc.lines_nil, fits, width_close]
  split
  · rename_i hcolumn
    rw [hrest _ hcolumn]
    omega
  · simp only [Bool.false_eq_true, false_iff]
    omega

/-- No form fits where no column is left. -/
theorem not_fits_formDoc {depth : ℕ} {head : Doc Style} {operands : List (Doc Style)}
    (hcolumn : width < column + 1) :
    ¬ fits width column (⟨indent, .flat, formDoc depth head operands⟩ :: rest) := by
  have hopen : ¬ column + Text.width "(" ≤ width := by
    rw [width_open]
    omega
  simp [formDoc, fits, hopen]

/-- A form fits if its columns and the parentheses behind it do. -/
theorem fits_formDoc_iff {depth : ℕ} {head : Doc Style} {operands : List (Doc Style)}
    (hrest : Trailing width rest closers) :
    fits width column (⟨indent, .flat, formDoc depth head operands⟩ :: rest) ↔
      column + measured (formDoc depth head operands).oneLine + closers ≤ width := by
  by_cases hcolumn : column + 1 ≤ width
  · rw [fits_flat_iff _ (by omega)]
    constructor
    · rintro ⟨hform, hfollow⟩
      exact (hrest _ hform).1 hfollow
    · intro hall
      have hform : column + measured (formDoc depth head operands).oneLine ≤ width := by omega
      exact ⟨hform, (hrest _ hform).2 hall⟩
  · -- there is no place for the first parenthesis
    have hpos : 1 ≤ measured (formDoc depth head operands).oneLine := by
      simp [formDoc, Doc.oneLine, Piece.columns, width_open]
    exact iff_of_false (not_fits_formDoc (by omega)) (by omega)

/-- A form is decided upon where it is met. -/
theorem renderFrom_formDoc {depth : ℕ} {style : Style} {text : String}
    {operands : List (Doc Style)} {out : Array (Piece Style)} :
    renderFrom width column (⟨indent, .broken, formDoc depth (.text style text) operands⟩ :: rest)
        out =
      if fits width column
          (⟨indent, .flat, formDoc depth (.text style text) operands⟩ :: rest) then
        renderFrom width column
          (⟨indent, .flat, formDoc depth (.text style text) operands⟩ :: rest) out
      else
        renderFrom width (column + Text.width "(" + Text.width text)
          (⟨indent + 2, .broken, .lines operands⟩ ::
            ⟨indent, .broken, .text (.paren depth) ")"⟩ :: rest)
          ((out.push (.text (.paren depth) "(")).push (.text style text)) := by
  simp only [formDoc, renderFrom, fits]

/-- A text is written where one is, whether the lines around it are broken or not. -/
theorem renderFrom_text {mode : Mode} {style : Style} {text : String}
    {out : Array (Piece Style)} :
    renderFrom width column (⟨indent, mode, .text style text⟩ :: rest) out =
      renderFrom width (column + Text.width text) rest (out.push (.text style text)) := by
  rw [renderFrom]

/-- Without documents no line is written. -/
theorem renderFrom_lines_nil {out : Array (Piece Style)} :
    renderFrom width column (⟨indent, .broken, .lines []⟩ :: rest) out =
      renderFrom width column rest out := by
  rw [Doc.lines_nil, renderFrom]

/-- Each document is written on a new line, with the indentation of the lines. -/
theorem renderFrom_lines_cons {d : Doc Style} {ds : List (Doc Style)} {out : Array (Piece Style)} :
    renderFrom width column (⟨indent, .broken, .lines (d :: ds)⟩ :: rest) out =
      renderFrom width indent (⟨indent, .broken, d⟩ :: ⟨indent, .broken, .lines ds⟩ :: rest)
        (out.push (.newline indent)) := by
  rw [Doc.lines_cons, renderFrom, renderFrom, renderFrom]

end Layout

/-! ### The printer keeps to the law -/

namespace Outline

open Layout

variable {width closers : ℕ} {rest : List (Frame Style)}

/-- The printer keeps to the law for an outline, wherever it begins a line inside of forms that do
not fit. -/
def KeepsLaw (width : ℕ) (o : Outline) : Prop :=
  ∀ (enclosing : List Place) (closers : ℕ) (rest : List (Frame Style)) (out : Array (Piece Style)),
    enclosing.any (Place.fits width) = false → Trailing width rest closers →
      ∃ column, renderFrom width (2 * enclosing.length)
          (⟨2 * enclosing.length, .broken, o.doc enclosing.length⟩ :: rest) out =
        renderFrom width column rest (out ++ o.layout width enclosing closers)

/-- The operands of a form that does not fit, up to the parenthesis behind them. -/
theorem renderFrom_lines {forms : List Place} (hforms : forms.any (Place.fits width) = false)
    {os : List Outline} (hos : ∀ o ∈ os, o.KeepsLaw width) (hrest : Trailing width rest closers)
    (indent column : ℕ) (style : Style) (out : Array (Piece Style)) :
    ∃ column', renderFrom width column
        (⟨2 * forms.length, .broken, .lines (os.map (doc forms.length))⟩ ::
          ⟨indent, .broken, .text style ")"⟩ :: rest) out =
      renderFrom width column' (⟨indent, .broken, .text style ")"⟩ :: rest)
        (out ++ layouts width forms closers os) := by
  induction os generalizing column out with
  | nil =>
      refine ⟨column, ?_⟩
      rw [List.map_nil, renderFrom_lines_nil]
      simp [layouts]
  | cons o os ih =>
      obtain ⟨ho, hos⟩ := List.forall_mem_cons.1 hos
      have hfollow : Trailing width
          (⟨2 * forms.length, .broken, .lines (os.map (doc forms.length))⟩ ::
            ⟨indent, .broken, .text style ")"⟩ :: rest)
          (if os.isEmpty then closers + 1 else 0) := by
        cases os with
        | nil => exact hrest.close
        | cons o' os => exact trailing_line _ _
      have hseparator : separator width forms = .newline (2 * forms.length) := by
        simp [separator, hforms]
      obtain ⟨column₁, hfirst⟩ :=
        ho forms _ _ (out.push (.newline (2 * forms.length))) hforms hfollow
      obtain ⟨column₂, hlater⟩ := ih hos column₁ _
      have hpieces : out.push (.newline (2 * forms.length)) ++
            layout width forms (if os.isEmpty then closers + 1 else 0) o ++
              layouts width forms closers os =
          out ++ layouts width forms closers (o :: os) :=
        Array.toList_inj.1 (by simp [layouts, hseparator])
      refine ⟨column₂, ?_⟩
      rw [List.map_cons, renderFrom_lines_cons, hfirst, hlater, hpieces]

/-- **The printer keeps to the law.** -/
theorem keepsLaw (width : ℕ) (o : Outline) : o.KeepsLaw width := by
  induction o using induct with
  | atom a =>
      intro enclosing closers rest out _ _
      refine ⟨2 * enclosing.length + Text.width a.text, ?_⟩
      simp [doc, renderFrom, layout]
  | form head isForm operands ih =>
      intro enclosing closers rest out henclosing hrest
      have hfits : fits width (2 * enclosing.length) (⟨2 * enclosing.length, .flat,
          (form head isForm operands).doc enclosing.length⟩ :: rest) ↔
          (place enclosing closers (form head isForm operands)).fits width := by
        rw [doc, fits_formDoc_iff hrest, Place.fits_iff, place, doc]
      rw [doc] at hfits ⊢
      rw [renderFrom_formDoc]
      split
      · rename_i hone
        exact ⟨_, by rw [renderFrom_flat, layout_form_of_fits (by simp [hfits.1 hone]), doc]⟩
      · rename_i hbroken
        -- the operands are inside of forms that do not fit, this one included
        have hforms : (place enclosing closers (form head isForm operands) :: enclosing).any
            (Place.fits width) = false := by
          rw [hfits] at hbroken
          simpa [hbroken] using henclosing
        obtain ⟨column, hlines⟩ := renderFrom_lines hforms ih hrest (2 * enclosing.length)
          (2 * enclosing.length + Text.width "(" + Text.width head.text) (.paren enclosing.length)
          ((out.push (.text (.paren enclosing.length) "(")).push (.text head.style head.text))
        have hpieces : ((out.push (.text (.paren enclosing.length) "(")).push
              (.text head.style head.text) ++
                layouts width (place enclosing closers (form head isForm operands) :: enclosing)
                  closers operands).push (.text (.paren enclosing.length) ")") =
            out ++ (form head isForm operands).layout width enclosing closers :=
          Array.toList_inj.1 (by simp [layout])
        refine ⟨column + Text.width ")", ?_⟩
        rw [docs_eq_map, ← hpieces]
        exact hlines.trans (renderFrom_text ..)

end Outline

/-! ### What is printed -/

/-- The characters of pieces. -/
def Piece.chars {σ : Type} (ps : List (Piece σ)) : List Char :=
  ps.flatMap fun p => p.content.toList

/-- No pieces have no characters. -/
@[simp] theorem Piece.chars_nil {σ : Type} : Piece.chars ([] : List (Piece σ)) = [] := rfl

/-- The characters of pieces are those of the first one and then of the rest. -/
@[simp] theorem Piece.chars_cons {σ : Type} (p : Piece σ) (ps : List (Piece σ)) :
    Piece.chars (p :: ps) = p.content.toList ++ Piece.chars ps := by
  simp [Piece.chars]

/-- The characters of pieces in a row are those of one part and then of the other. -/
@[simp] theorem Piece.chars_append {σ : Type} (ps qs : List (Piece σ)) :
    Piece.chars (ps ++ qs) = Piece.chars ps ++ Piece.chars qs := by
  simp [Piece.chars]

/-- The contents of pieces are their characters. -/
theorem Piece.toList_contents {σ : Type} (pieces : Array (Piece σ)) :
    (Piece.contents pieces).toList = Piece.chars pieces.toList := by
  have hfold : ∀ (ps : List (Piece σ)) (text : String),
      (ps.foldl (fun text p => text ++ p.content) text).toList = text.toList ++ Piece.chars ps := by
    intro ps
    induction ps with
    | nil => simp
    | cons p ps ih => simp [ih]
  rw [Piece.contents, ← Array.foldl_toList, hfold]
  rfl

namespace Graph

/-- What is printed of a handle is its outline, laid out by the law. -/
theorem toList_render_doc (g : Graph) (width : ℕ) (h : Handle) :
    ((g.doc h).render width).toList = (g.outline depthLimit h).layout width [] 0 := by
  obtain ⟨column, hrender⟩ :=
    (g.outline depthLimit h).keepsLaw width [] 0 [] #[] rfl Layout.trailing_nil
  rw [Doc.render, g.doc_eq]
  simpa [Layout.renderFrom] using congrArg Array.toList hrender

/-- What is printed are the characters of the layout of the outline. -/
theorem toList_print (g : Graph) (width : ℕ) (h : Handle) :
    (g.print width h).toList = Piece.chars ((g.outline depthLimit h).layout width [] 0) := by
  rw [print, Piece.toList_contents, g.toList_render_doc]

end Graph

end SharedExpr
