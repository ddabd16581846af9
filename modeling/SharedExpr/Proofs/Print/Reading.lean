import SharedExpr.Proofs.Print.Layout
import SharedExpr.Proofs.Text.Words
import Std.Data.String.ToInt

/-!
# Reading printed expressions back

A printed expression is a row of words and parentheses. If its lines are joined it is on one line,
whatever the width was. Parentheses tell where the forms are, a head follows the first parenthesis
of a form and nothing else does, and an operand follows each space. So the outline can be read off
the text, unless a name has separators in it or is written like something else.

* `Head.IsPlain`, `Outline.Legible` — the names, and the outlines, that cannot be mistaken.
* `Outline.Legible.readable` — **legible outlines that are written alike are equal**, whatever
  follows them.
* `Outline.Legible.joinFrom_layout` — an outline with its lines joined is on one line.
* `Graph.outline_eq_of_joinLines_print` — so the printed text tells the outline.
-/

namespace SharedExpr

/-! ### Names that cannot be mistaken -/

/-- A head with a name that is a word and is not how anything else is written that can stand in its
place: for a variable an integer or the three dots, and for a call an operator. -/
def Head.IsPlain : Head → Prop
  | .intLiteral _ | .comparison _ | .arithmetic _ => True
  | .varUse name =>
    Text.IsWord name.toList ∧ name ≠ "..." ∧ ∀ value : Int64, name ≠ Int.repr value.toInt
  | .call callee =>
    Text.IsWord callee.toList ∧ (∀ op : Comparison, callee ≠ op.symbol) ∧
      ∀ op : Arithmetic, callee ≠ op.symbol

/-- A plain head is written as a word. -/
theorem Head.IsPlain.isWord_text {head : Head} (hplain : head.IsPlain) :
    Text.IsWord head.text.toList := by
  cases head with
  | intLiteral value => exact Text.isWord_repr _
  | comparison op => cases op <;> decide
  | arithmetic op => cases op <;> decide
  | varUse name => exact hplain.1
  | call callee => exact hplain.1

/-- Comparisons are told apart by their symbols. -/
theorem Comparison.symbol_injective : Function.Injective Comparison.symbol := by
  intro op op' heq
  exact Option.some.inj <|
    (ofSymbol?_eq_some_iff.2 rfl).symm.trans (ofSymbol?_eq_some_iff.2 heq.symm)

/-- Arithmetic operations are told apart by their symbols. -/
theorem Arithmetic.symbol_injective : Function.Injective Arithmetic.symbol := by
  intro op op' heq
  exact Option.some.inj <|
    (ofSymbol?_eq_some_iff.2 rfl).symm.trans (ofSymbol?_eq_some_iff.2 heq.symm)

/-- No comparison has the symbol of an arithmetic operation. -/
theorem Comparison.symbol_ne_symbol (op : Comparison) (op' : Arithmetic) :
    op.symbol ≠ op'.symbol := by
  cases op <;> cases op' <;> decide

/-- Plain heads of leaves, and plain heads of forms, are told apart by their texts. -/
theorem Head.eq_of_text_eq {head head' : Head} (hleaf : head.isLeaf = head'.isLeaf)
    (hplain : head.IsPlain) (hplain' : head'.IsPlain) (htext : head.text = head'.text) :
    head = head' := by
  cases head with
  | intLiteral value =>
      cases head' with
      | intLiteral value' => exact congrArg _ (Int64.toInt_inj.1 (Int.repr_inj.1 htext))
      | varUse name => exact absurd htext.symm (hplain'.2.2 value)
      | comparison | arithmetic | call => cases hleaf
  | varUse name =>
      cases head' with
      | intLiteral value => exact absurd htext (hplain.2.2 value)
      | varUse name' => exact congrArg _ htext
      | comparison | arithmetic | call => cases hleaf
  | comparison op =>
      cases head' with
      | comparison op' => exact congrArg _ (Comparison.symbol_injective htext)
      | arithmetic op' => exact absurd htext (op.symbol_ne_symbol op')
      | call callee => exact absurd htext.symm (hplain'.2.1 op)
      | intLiteral | varUse => cases hleaf
  | arithmetic op =>
      cases head' with
      | comparison op' => exact absurd htext.symm (op'.symbol_ne_symbol op)
      | arithmetic op' => exact congrArg _ (Arithmetic.symbol_injective htext)
      | call callee => exact absurd htext.symm (hplain'.2.2 op)
      | intLiteral | varUse => cases hleaf
  | call callee =>
      cases head' with
      | comparison op => exact absurd htext (hplain.2.1 op)
      | arithmetic op => exact absurd htext (hplain.2.2 op)
      | call callee' => exact congrArg _ htext
      | intLiteral | varUse => cases hleaf

/-- An atom that cannot be mistaken. -/
def Atom.Legible : Atom → Prop
  | .leaf head _ => head.IsPlain
  | .elided => True
  | .dangling _ => False

/-- A legible atom is written as a word. -/
theorem Atom.Legible.isWord_text {a : Atom} (ha : a.Legible) : Text.IsWord a.text.toList := by
  cases a with
  | leaf head isLeaf => exact Head.IsPlain.isWord_text ha
  | elided => decide
  | dangling h => exact ha.elim

/-- A leaf is not written as three dots. -/
theorem Head.IsPlain.text_ne_elided {head : Head} (hplain : head.IsPlain)
    (hleaf : head.isLeaf = true) : head.text ≠ "..." := by
  cases head with
  | intLiteral value =>
      intro htext
      have hdot : '.' ∈ (Int.repr value.toInt).toList := by
        rw [show Int.repr value.toInt = "..." from htext]
        decide
      rcases Text.eq_minus_or_isDigit_of_mem_repr hdot with heq | hdigit
      · cases heq
      · cases hdigit
  | varUse name => exact hplain.2.1
  | comparison | arithmetic | call => cases hleaf

/-- Atoms that cannot be mistaken are told apart by their texts. -/
theorem Atom.eq_of_text_eq {a b : Atom} (ha : a.Legible) (hb : b.Legible)
    (htext : a.text = b.text) : a = b := by
  cases a with
  | leaf head isLeaf =>
      cases b with
      | leaf head' isLeaf' =>
          obtain rfl := Head.eq_of_text_eq (isLeaf.trans isLeaf'.symm) ha hb htext
          rfl
      | elided => exact absurd htext (Head.IsPlain.text_ne_elided ha isLeaf)
      | dangling h => exact hb.elim
  | elided =>
      cases b with
      | leaf head' isLeaf' => exact absurd htext.symm (Head.IsPlain.text_ne_elided hb isLeaf')
      | elided => rfl
      | dangling h => exact hb.elim
  | dangling h => exact ha.elim

/-! ### Outlines on one line -/

namespace Outline

/-- An outline that cannot be mistaken: nothing in it is dangling, and its heads are plain. -/
inductive Legible : Outline → Prop
  | atom {a : Atom} (ha : a.Legible) : Legible (.atom a)
  | form {head : Head} {isForm : head.isLeaf = false} {operands : List Outline}
      (hhead : head.IsPlain) (hoperands : ∀ o ∈ operands, Legible o) :
      Legible (.form head isForm operands)

/-- A legible form has a plain head and legible operands. -/
theorem Legible.of_form {head : Head} {isForm : head.isLeaf = false} {operands : List Outline}
    (ho : (Outline.form head isForm operands).Legible) :
    head.IsPlain ∧ ∀ o ∈ operands, o.Legible := by
  cases ho with
  | form hhead hoperands => exact ⟨hhead, hoperands⟩

/-- The characters of an outline on one line. -/
def written (depth : ℕ) (o : Outline) : List Char :=
  Piece.chars (o.doc depth).oneLine

/-- The characters of operands on one line. -/
def writtenOperands (depth : ℕ) (os : List Outline) : List Char :=
  os.flatMap fun o => ' ' :: o.written depth

/-- No operands are written as nothing. -/
@[simp] theorem writtenOperands_nil (depth : ℕ) : writtenOperands depth [] = [] := rfl

/-- Operands are written with a space in front of each. -/
@[simp] theorem writtenOperands_cons (depth : ℕ) (o : Outline) (os : List Outline) :
    writtenOperands depth (o :: os) = ' ' :: (o.written depth ++ writtenOperands depth os) := by
  simp [writtenOperands]

/-- An atom is written as its text. -/
theorem written_atom (depth : ℕ) (a : Atom) : (atom a).written depth = a.text.toList := by
  simp [written, doc, Doc.oneLine, Piece.content]

/-- A form is written with parentheses around its head and its operands. -/
theorem written_form (depth : ℕ) (head : Head) (isForm : head.isLeaf = false)
    (operands : List Outline) :
    (form head isForm operands).written depth =
      '(' :: (head.text.toList ++ (writtenOperands (depth + 1) operands ++ [')'])) := by
  have hoperands : Piece.chars
      (operands.flatMap fun o => .space :: (o.doc (depth + 1)).oneLine) =
        writtenOperands (depth + 1) operands := by
    induction operands with
    | nil => rfl
    | cons o os ih => simp [ih, written, Piece.content]
  rw [written, oneLine_doc_form]
  simp [hoperands, Piece.content]

/-! ### Telling outlines apart -/

variable {depth depth' : ℕ} {rest rest' : List Char} {o o' : Outline} {os os' : List Outline}

/-- The outline, and what follows it, can be read off the characters. -/
def Readable (o : Outline) : Prop :=
  ∀ (depth depth' : ℕ) (o' : Outline) (rest rest' : List Char), o'.Legible →
    Text.EndsWord rest → Text.EndsWord rest' →
      o.written depth ++ rest = o'.written depth' ++ rest' → o = o' ∧ rest = rest'

/-- Behind a head there is a space or a closing parenthesis, so it ends there. -/
theorem endsWord_operands (depth : ℕ) (os : List Outline) (rest : List Char) :
    Text.EndsWord (writtenOperands depth os ++ ')' :: rest) := by
  cases os with
  | nil => exact Text.endsWord_cons rfl
  | cons o os =>
      rw [writtenOperands_cons]
      exact Text.endsWord_cons rfl

/-- Operands are read one after the other, up to the parenthesis behind them. -/
theorem operands_append_inj (hos : ∀ o ∈ os, o.Readable) (hos' : ∀ o ∈ os', o.Legible)
    (heq : writtenOperands depth os ++ ')' :: rest =
      writtenOperands depth' os' ++ ')' :: rest') : os = os' ∧ rest = rest' := by
  induction os generalizing os' with
  | nil =>
      cases os' with
      | nil => exact ⟨rfl, (List.cons.inj heq).2⟩
      | cons o' os' => simp at heq
  | cons o os ih =>
      cases os' with
      | nil => simp at heq
      | cons o' os' =>
          obtain ⟨hfirst, hlater⟩ := List.forall_mem_cons.1 hos
          obtain ⟨hfirst', hlater'⟩ := List.forall_mem_cons.1 hos'
          simp only [writtenOperands_cons, List.cons_append, List.append_assoc, List.cons.injEq,
            true_and] at heq
          obtain ⟨rfl, hoperands⟩ := hfirst _ _ _ _ _ hfirst' (endsWord_operands _ _ _)
            (endsWord_operands _ _ _) heq
          obtain ⟨rfl, hrest⟩ := ih hlater hlater' hoperands
          exact ⟨rfl, hrest⟩

/-- **Legible outlines that are written alike are equal.** -/
theorem Legible.readable (ho : o.Legible) : o.Readable := by
  induction o using induct with
  | atom a =>
      intro depth depth' o' rest rest' ho' hrest hrest' heq
      obtain @⟨_, ha⟩ := ho
      rw [written_atom] at heq
      cases ho' with
      | @atom b hb =>
          rw [written_atom] at heq
          obtain ⟨htext, hrest⟩ :=
            ha.isWord_text.append_inj hb.isWord_text hrest hrest' heq
          obtain rfl := Atom.eq_of_text_eq ha hb (String.toList_inj.1 htext)
          exact ⟨rfl, hrest⟩
      | form hhead hoperands =>
          rw [written_form] at heq
          exact absurd heq (ha.isWord_text.append_ne_cons rfl)
  | form head isForm operands ih =>
      intro depth depth' o' rest rest' ho' hrest hrest' heq
      obtain ⟨hhead, hoperands⟩ := ho.of_form
      rw [written_form] at heq
      cases ho' with
      | atom hb =>
          rw [written_atom] at heq
          exact absurd heq.symm (hb.isWord_text.append_ne_cons rfl)
      | @form head' isForm' operands' hhead' hoperands' =>
          rw [written_form] at heq
          simp only [List.cons_append, List.append_assoc, List.nil_append, List.cons.injEq,
            true_and] at heq
          obtain ⟨htext, hlater⟩ := hhead.isWord_text.append_inj hhead'.isWord_text
            (endsWord_operands _ _ _) (endsWord_operands _ _ _) heq
          obtain rfl := Head.eq_of_text_eq (isForm.trans isForm'.symm) hhead hhead'
            (String.toList_inj.1 htext)
          obtain ⟨rfl, hrest⟩ :=
            operands_append_inj (fun o ho => ih o ho (hoperands o ho)) hoperands' hlater
          exact ⟨rfl, hrest⟩

/-! ### Joining the lines -/

/-- With their lines joined, operands are on one line. -/
theorem joinFrom_layouts (width : ℕ) (forms : List Place) (closers : ℕ) (rest : List Char)
    (hos : ∀ o ∈ os, ∀ closers skipping rest,
      Text.joinFrom skipping (Piece.chars (o.layout width forms closers) ++ rest) =
        o.written forms.length ++ Text.joinFrom false rest) :
    Text.joinFrom false (Piece.chars (layouts width forms closers os) ++ rest) =
      writtenOperands forms.length os ++ Text.joinFrom false rest := by
  induction os with
  | nil => rfl
  | cons o os ih =>
      obtain ⟨hfirst, hlater⟩ := List.forall_mem_cons.1 hos
      rw [layouts, separator]
      -- a space stays, and the end of a line becomes one
      split
      · simp [Piece.content, Text.joinFrom_space, hfirst, ih hlater]
      · simp [Piece.content, Text.joinFrom_newline, Text.joinFrom_indentation, hfirst, ih hlater]

/-- **With its lines joined, what is laid out is on one line.** -/
theorem Legible.joinFrom_layout (ho : o.Legible) (width : ℕ) (enclosing : List Place)
    (closers : ℕ) (skipping : Bool) (rest : List Char) :
    Text.joinFrom skipping (Piece.chars (o.layout width enclosing closers) ++ rest) =
      o.written enclosing.length ++ Text.joinFrom false rest := by
  induction o using induct generalizing enclosing closers skipping rest with
  | atom a =>
      obtain @⟨_, ha⟩ := ho
      simpa [written_atom, layout, Piece.content] using ha.isWord_text.joinFrom_append
  | form head isForm operands ih =>
      obtain ⟨hhead, hoperands⟩ := ho.of_form
      have hopen : ∀ cs, Text.joinFrom skipping ('(' :: cs) = '(' :: Text.joinFrom false cs :=
        fun _ => Text.joinFrom_cons (by decide) (by decide)
      have hclose : Text.joinFrom false (')' :: rest) = ')' :: Text.joinFrom false rest :=
        Text.joinFrom_cons (by decide) (by decide)
      have hlines := joinFrom_layouts width
        (place enclosing closers (Outline.form head isForm operands) :: enclosing) closers
        (')' :: rest) fun o ho => ih o ho (hoperands o ho) _
      rw [written_form, layout]
      simpa [Piece.content, hopen, hhead.isWord_text.joinFrom_append, hclose] using hlines

end Outline

/-! ### The text of an expression -/

namespace Graph

variable {g k : Graph} {a b h : Handle}

/-- What is printed, with its lines joined, is on one line. -/
theorem toList_joinLines_print (ho : (g.outline depthLimit h).Legible) (width : ℕ) :
    (Text.joinLines (g.print width h)).toList = (g.outline depthLimit h).written 0 := by
  have hjoin := ho.joinFrom_layout width [] 0 false []
  rw [List.append_nil] at hjoin
  rw [Text.joinLines, String.toList_ofList, g.toList_print, hjoin]
  simp [Text.joinFrom]

/-- **The printed text tells the outline.** -/
theorem outline_eq_of_joinLines_print (ha : (g.outline depthLimit a).Legible)
    (hb : (k.outline depthLimit b).Legible) {width width' : ℕ}
    (htext : Text.joinLines (g.print width a) = Text.joinLines (k.print width' b)) :
    g.outline depthLimit a = k.outline depthLimit b := by
  have hwritten : (g.outline depthLimit a).written 0 = (k.outline depthLimit b).written 0 := by
    rw [← toList_joinLines_print ha width, htext, toList_joinLines_print hb width']
  exact (ha.readable 0 0 _ [] [] hb Text.endsWord_nil Text.endsWord_nil (by rw [hwritten])).1

/-- No name in the expression under a handle can be mistaken. -/
def PlainBelow (g : Graph) (h : Handle) : Prop :=
  ∀ l n, g.Reaches h l → g.node? l = some n → n.head.IsPlain

/-- Where all is live and the names are plain, the outline cannot be mistaken. -/
theorem Whole.legible_outline (hwhole : g.Whole h) (hplain : g.PlainBelow h) (remaining : ℕ) :
    (g.outline remaining h).Legible := by
  induction remaining generalizing h with
  | zero =>
      obtain ⟨n, hn⟩ := hwhole.exists_node?
      unfold outline
      by_cases hleaf : n.isLeaf
      · simpa [hn, hleaf] using .atom (hplain h n .refl hn)
      · simpa [hn, hleaf] using .atom trivial
  | succ remaining ih =>
      obtain ⟨n, hn⟩ := hwhole.exists_node?
      have hoperands : ∀ o ∈ n.children.map (fun c => g.outline remaining c), o.Legible := by
        simp only [List.forall_mem_map]
        intro c hc
        exact ih (hwhole.of_child hn hc) fun l m hl =>
          hplain l m (.head (mem_edges_of_child hn hc) hl)
      unfold outline
      by_cases hleaf : n.isLeaf
      · simpa [hn, hleaf] using .atom (hplain h n .refl hn)
      · simpa [hn, hleaf] using .form (hplain h n .refl hn) hoperands

end Graph

end SharedExpr
