import SharedExpr.Proofs.History.Evolution
import SharedExpr.Proofs.Print.Reading
import SharedExpr.Proofs.Print.Rows

/-!
# What is printed in a history

The text of an expression is determined by its tree, cut off at the depth limit, and by the width;
the layout follows a law that can be told from the expression. In the other direction the text tells
the cut tree, as long as no name can be mistaken.

* `Graph.printed_by_law` — **how an expression is laid out** at each width.
* `History.print_tells_tree` — **equal texts, equal expressions**, up to the depth limit and to how
  lines end.
-/

namespace SharedExpr

/-- **The law of the layout.** What is printed of a handle is its outline, laid out by the law.
There a form with operands is on one line exactly if it, or a form around it, fits with the
parentheses that follow at once; otherwise each of its operands begins a line. So a row that is
longer than the width has no space between operands, and whatever is on one line is so at every
greater width. -/
theorem Graph.printed_by_law (g : Graph) (width : ℕ) (h : Handle) :
    ((g.doc h).render width).toList = (g.outline depthLimit h).layout width [] 0 ∧
    (g.print width h).toList = Piece.chars ((g.doc h).render width).toList ∧
    (∀ (enclosing : List Place) (closers : ℕ) (head : Head) (isForm : head.isLeaf = false)
      (operands : List Outline), operands ≠ [] →
      ((Outline.form head isForm operands).layout width enclosing closers =
          ((Outline.form head isForm operands).doc enclosing.length).oneLine ↔
        (Outline.place enclosing closers (.form head isForm operands) :: enclosing).any
          (Place.fits width))) ∧
    (∀ row ∈ rows ((g.doc h).render width).toList, .space ∈ row → measured row ≤ width) ∧
    ∀ width' ≥ width, List.Forall₂ Piece.Widened
      ((g.doc h).render width).toList ((g.doc h).render width').toList := by
  refine ⟨g.toList_render_doc width h, Piece.toList_contents _, ?_, ?_, ?_⟩
  · intro enclosing closers head isForm operands hoperands
    exact Outline.layout_eq_oneLine_iff hoperands
  · rw [g.toList_render_doc]
    intro row hrow hspace
    exact (Outline.rowsFit_layout width _).measured_le hrow hspace
  · intro width' hwidth
    rw [g.toList_render_doc, g.toList_render_doc]
    exact Outline.widened_layout hwidth _ [] 0

namespace History

/-- A call with a call in it that is stored once and occurs twice. -/
def combined : History where
  id := ⟨1⟩
  settings := .standard
  commands := [.varUse "x", .call "f" [.ofSlot 1 0], .intLiteral (-7),
    .call "combine" [.ofSlot 1 1, .ofSlot 1 2, .ofSlot 1 1]]

/-- Of the two occurrences only the first fits, since a parenthesis follows the second. -/
theorem combined_printed :
    combined.graph.print 7 (.ofSlot 1 3) = "(combine\n  (f x)\n  -7\n  (f\n    x))" ∧
    combined.graph.print 24 (.ofSlot 1 3) = "(combine (f x) -7 (f x))" := by
  have hprint : ∀ width, (combined.graph.print width (.ofSlot 1 3)).toList =
      Piece.chars ((combined.graph.outline depthLimit (.ofSlot 1 3)).layout width [] 0) := by
    intro width
    obtain ⟨hlaw, htext, -⟩ := combined.graph.printed_by_law width (.ofSlot 1 3)
    rw [htext, hlaw]
  constructor
  · exact String.toList_inj.1 ((hprint 7).trans (by decide +kernel))
  · exact String.toList_inj.1 ((hprint 24).trans (by decide +kernel))

/-- **The text tells the expression.** Two handles of any two histories below which all is live
stand for trees, and if these are equal where they are cut off at the depth limit, the texts are
equal at each width. If no name can be mistaken, the texts with their lines joined, at any two
widths, are equal only then; and if one of the trees is not cut, only for the same expression. -/
theorem print_tells_tree (H K : History) {a b : Handle} (ha : H.graph.Whole a)
    (hb : K.graph.Whole b) :
    ∃ t u, H.graph.StandsFor a t ∧ K.graph.StandsFor b u ∧
      (t.truncate depthLimit = u.truncate depthLimit →
        ∀ width, H.graph.print width a = K.graph.print width b) ∧
      (H.graph.PlainBelow a → K.graph.PlainBelow b → ∀ width width',
        (Text.joinLines (H.graph.print width a) = Text.joinLines (K.graph.print width' b) ↔
          t.truncate depthLimit = u.truncate depthLimit) ∧
        (t.nesting ≤ depthLimit →
          (Text.joinLines (H.graph.print width a) = Text.joinLines (K.graph.print width' b) ↔
            H.graph.sameExpression a K.graph b))) := by
  obtain ⟨t, ht⟩ := H.ordered.whole_iff_exists_standsFor.1 ha
  obtain ⟨u, hu⟩ := K.ordered.whole_iff_exists_standsFor.1 hb
  refine ⟨t, u, ht, hu, ?_, ?_⟩
  · intro htrees width
    apply String.toList_inj.1
    rw [Graph.toList_print, Graph.toList_print, ht.outline_eq, hu.outline_eq, htrees]
  · intro hplain hplain' width width'
    have hlegible := ha.legible_outline hplain depthLimit
    have hlegible' := hb.legible_outline hplain' depthLimit
    have htext : Text.joinLines (H.graph.print width a) = Text.joinLines (K.graph.print width' b) ↔
        t.truncate depthLimit = u.truncate depthLimit := by
      rw [← ht.outline_eq, ← hu.outline_eq]
      constructor
      · exact Graph.outline_eq_of_joinLines_print hlegible hlegible'
      · intro houtlines
        apply String.toList_inj.1
        rw [Graph.toList_joinLines_print hlegible, Graph.toList_joinLines_print hlegible',
          houtlines]
    refine ⟨htext, fun hlevels => htext.trans ?_⟩
    rw [H.ordered.sameExpression_iff_exists_standsFor]
    constructor
    · intro htrees
      obtain rfl := ht.eq_of_truncate_eq hu hlevels htrees
      exact ⟨t, ht, hu⟩
    · rintro ⟨s, hs, hs'⟩
      rw [ht.unique hs, hu.unique hs']

/-- The call with nothing shared. -/
def unshared : History where
  id := ⟨2⟩
  settings := .standard
  commands := [.varUse "x", .call "f" [.ofSlot 2 0], .intLiteral (-7), .varUse "x",
    .call "f" [.ofSlot 2 3], .call "combine" [.ofSlot 2 1, .ofSlot 2 2, .ofSlot 2 4]]

/-- The inner call written out. -/
def innerTree : Tree :=
  .node (.call "f") [.node (.varUse "x") []]

/-- The call written out. -/
def combinedTree : Tree :=
  .node (.call "combine") [innerTree, .node (.intLiteral (-7)) [], innerTree]

/-- The heads of the two calls are plain. -/
theorem plainBelow_of_heads {g : Graph} (h : Handle)
    (hheads : ∀ p ∈ g.entries, p.2.node.head ∈
      [.varUse "x", .call "f", .intLiteral (-7), .call "combine"]) : g.PlainBelow h := by
  have hx : ∀ v : Int64, "x" ≠ Int.repr v.toInt := by
    intro v heq
    have hmem : 'x' ∈ (Int.repr v.toInt).toList := by
      rw [← heq]
      decide
    rcases Text.eq_minus_or_isDigit_of_mem_repr hmem with h | h <;> cases h
  intro l n _ hn
  obtain ⟨e, he, rfl⟩ := Option.map_eq_some_iff.1 hn
  have hmem := hheads _ (Graph.mem_entries.2 he)
  simp only [List.mem_cons, List.not_mem_nil, or_false] at hmem
  obtain hhead | hhead | hhead | hhead := hmem <;> rw [hhead]
  · exact ⟨by decide, by decide, hx⟩
  · exact ⟨by decide, by rintro ⟨⟩ <;> decide, by rintro ⟨⟩ <;> decide⟩
  · trivial
  · exact ⟨by decide, by rintro ⟨⟩ <;> decide, by rintro ⟨⟩ <;> decide⟩

/-- The two calls are printed alike, but for the ends of lines. -/
theorem combined_print_tells_tree :
    Text.joinLines (combined.graph.print 7 (.ofSlot 1 3)) =
      Text.joinLines (unshared.graph.print 24 (.ofSlot 2 5)) := by
  have hinner : ∀ {H : History} {h x : Handle}, H.graph.node? h = some (.call "f" [x]) →
      H.graph.node? x = some (.varUse "x") → H.graph.StandsFor h innerTree := fun hf hx =>
    Graph.standsFor_of_node? hf (.cons (Graph.standsFor_of_node? hx .nil) .nil)
  have hcall : ∀ {H : History} {h e m f x y : Handle},
      H.graph.node? h = some (.call "combine" [e, m, f]) →
      H.graph.node? e = some (.call "f" [x]) → H.graph.node? x = some (.varUse "x") →
      H.graph.node? m = some (.intLiteral (-7)) →
      H.graph.node? f = some (.call "f" [y]) → H.graph.node? y = some (.varUse "x") →
      H.graph.StandsFor h combinedTree := fun hn he hx hm hf hy =>
    Graph.standsFor_of_node? hn (.cons (hinner he hx)
      (.cons (Graph.standsFor_of_node? hm .nil) (.cons (hinner hf hy) .nil)))
  have hcombined := hcall (H := combined) (h := .ofSlot 1 3) (e := .ofSlot 1 1) (m := .ofSlot 1 2)
    (f := .ofSlot 1 1) (x := .ofSlot 1 0) (y := .ofSlot 1 0) (by decide) (by decide) (by decide)
    (by decide) (by decide) (by decide)
  have hunshared := hcall (H := unshared) (h := .ofSlot 2 5) (e := .ofSlot 2 1) (m := .ofSlot 2 2)
    (f := .ofSlot 2 4) (x := .ofSlot 2 0) (y := .ofSlot 2 3) (by decide) (by decide) (by decide)
    (by decide) (by decide) (by decide)
  obtain ⟨t, u, ht, hu, -, htext⟩ :=
    print_tells_tree combined unshared hcombined.whole hunshared.whole
  obtain ⟨-, hsame⟩ := htext (plainBelow_of_heads _ (by decide)) (plainBelow_of_heads _ (by decide))
    7 24
  obtain rfl := ht.unique hcombined
  exact (hsame (by decide)).2
    (combined.ordered.sameExpression_iff_exists_standsFor.2 ⟨_, hcombined, hunshared⟩)

end History

end SharedExpr
