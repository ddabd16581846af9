import SharedExpr.Proofs.Print.Layout
import SharedExpr.Proofs.Print.Marked

/-!
# Coloured and plain print agree

A coloured print is a plain print with calls in between that change how the pen looks. What is
written is the same, and where lines end is the same. The pen looks like something for one token at
a time; what the layout puts in between is written as the terminal would write it.

* `PenCall.next` — what a call does to a pen that has an appearance or none. Taking on one over
  another is not provided for, and neither is giving up none.
* `Outline.tokens`, `Inked` — the tokens that are printed of an expression, and calls that write
  just these, each with its appearance, and with blanks of the layout in between.
* `nextOpen` — how many forms are open after a token. Parentheses look like those of a form with as
  many forms around it, and so a form is closed as it was opened.
* `Graph.coloured_agrees` — **this is so of every coloured print**.
-/

namespace SharedExpr

/-! ### What calls write -/

/-- What a call writes. -/
def PenCall.written : PenCall → String
  | .write text => text
  | .takeOn _ | .reset => ""

/-- The calls of pieces write the pieces. -/
theorem toList_join_written (pieces : List (Piece Style)) :
    (String.join ((pieces.flatMap Piece.penCalls).map PenCall.written)).toList =
      Piece.chars pieces := by
  induction pieces with
  | nil => rfl
  | cons piece pieces ih =>
      rw [String.toList_join] at ih ⊢
      rw [List.flatMap_cons, List.map_append, List.flatMap_append, ih, Piece.chars_cons]
      cases piece <;> simp [Piece.penCalls, PenCall.written, Piece.content]

/-! ### Appearances that alternate -/

/-- Whether the pen has an appearance after a call, given whether it had one before. -/
def PenCall.next (inked : Bool) : PenCall → Option Bool
  | .takeOn _ => if inked then none else some true
  | .write _ => some inked
  | .reset => if inked then some false else none

/-! ### Tokens -/

/-- A token of a printed expression: what it is and how it is written. -/
abbrev Token :=
  Style × String

/-- Calls that write the tokens, each with its appearance, and blanks of the layout without. -/
inductive Inked : List Token → List PenCall → Prop
  /-- Nothing is left. -/
  | nil : Inked [] []
  /-- A token is written, and nothing else with its appearance. -/
  | token (style : Style) (text : String) {tokens calls} (hrest : Inked tokens calls) :
      Inked ((style, text) :: tokens) (.takeOn style.appearance :: .write text :: .reset :: calls)
  /-- A space. -/
  | space {tokens calls} (hrest : Inked tokens calls) : Inked tokens (.write " " :: calls)
  /-- The end of a line, and the indentation of the next one. -/
  | newline (indent : ℕ) {tokens calls} (hrest : Inked tokens calls) :
      Inked tokens (.write ("\n" ++ String.ofList (List.replicate indent ' ')) :: calls)

namespace Inked

variable {ts us : List Token} {cs ds : List PenCall}

/-- Calls for tokens in a row are calls for one part and then for the other. -/
theorem append (h : Inked ts cs) (h' : Inked us ds) : Inked (ts ++ us) (cs ++ ds) := by
  induction h with
  | nil => exact h'
  | token style text _ ih => exact .token style text ih
  | space _ ih => exact .space ih
  | newline indent _ ih => exact .newline indent ih

/-- The pen takes on an appearance when it has none, and in the end it has none. -/
theorem alternates (h : Inked ts cs) : cs.foldlM PenCall.next false = some false := by
  induction h with
  | nil => rfl
  | token style text _ ih => exact ih
  | space _ ih => exact ih
  | newline indent _ ih => exact ih

end Inked

namespace Outline

mutual

/-- The tokens of an outline with `depth` forms around it. -/
def tokens (depth : ℕ) : Outline → List Token
  | .atom a => [(a.style, a.text)]
  | .form head _ operands =>
    (.paren depth, "(") :: (head.style, head.text) ::
      (tokensAll (depth + 1) operands ++ [(.paren depth, ")")])

/-- The tokens of outlines with `depth` forms around them. -/
def tokensAll (depth : ℕ) : List Outline → List Token
  | [] => []
  | o :: os => tokens depth o ++ tokensAll depth os

end

variable {width : ℕ}

/-- What separates operands is blank and writes no token. -/
theorem inked_separator (width : ℕ) (forms : List Place) :
    Inked [] (separator width forms).penCalls := by
  unfold separator
  split
  · exact .space .nil
  · exact .newline _ .nil

/-- Operands are inked one after the other, if each of them is. -/
theorem inked_layouts (forms : List Place) {os : List Outline}
    (hos : ∀ o ∈ os, ∀ closers,
      Inked (o.tokens forms.length) ((o.layout width forms closers).flatMap Piece.penCalls)) :
    Inked (tokensAll forms.length os)
      ((layouts width forms closers os).flatMap Piece.penCalls) := by
  induction os with
  | nil => exact .nil
  | cons o os ih =>
      obtain ⟨ho, hos⟩ := List.forall_mem_cons.1 hos
      rw [layouts, List.flatMap_cons, List.flatMap_append]
      exact (inked_separator width forms).append ((ho _).append (ih hos))

/-- **What is printed of an outline are its tokens and blanks.** -/
theorem inked_layout (o : Outline) (enclosing : List Place) (closers : ℕ) :
    Inked (o.tokens enclosing.length)
      ((o.layout width enclosing closers).flatMap Piece.penCalls) := by
  induction o using induct generalizing enclosing closers with
  | atom a => exact .token a.style a.text .nil
  | form head isForm operands ih =>
      have hoperands : Inked (tokensAll (enclosing.length + 1) operands) ((layouts width
          (place enclosing closers (form head isForm operands) :: enclosing) closers
            operands).flatMap Piece.penCalls) :=
        inked_layouts (place enclosing closers (form head isForm operands) :: enclosing)
          fun o ho closers => ih o ho _ closers
      rw [layout, tokens]
      simp only [List.flatMap_cons, List.flatMap_append]
      exact .token _ _ (.token _ _ (hoperands.append (.token _ _ .nil)))

end Outline

/-! ### Parentheses -/

/-- The number of forms that are open after a token, given how many were before. A parenthesis has
to look as the form with so many forms around it asks for. -/
def nextOpen (opened : ℕ) : Token → Option ℕ
  | (.paren depth, text) =>
    if text = "(" ∧ depth = opened then some (opened + 1)
    else if text = ")" ∧ depth + 1 = opened then some depth
    else none
  | _ => some opened

namespace Outline

/-- What stands alone opens and closes nothing. -/
theorem nextOpen_atom (a : Atom) (n : ℕ) : nextOpen n (a.style, a.text) = some n := by
  rcases a with ⟨⟨⟩, _⟩ | _ | _ <;> rfl

/-- A head opens and closes nothing. -/
theorem nextOpen_head (head : Head) (n : ℕ) : nextOpen n (head.style, head.text) = some n := by
  cases head <;> rfl

/-- Operands open nothing that they do not close, if none of them does. -/
theorem foldlM_tokensAll {n : ℕ} {os : List Outline}
    (hos : ∀ o ∈ os, (o.tokens n).foldlM nextOpen n = some n) :
    (tokensAll n os).foldlM nextOpen n = some n := by
  induction os with
  | nil => rfl
  | cons o os ih =>
      obtain ⟨ho, hos⟩ := List.forall_mem_cons.1 hos
      rw [tokensAll, List.foldlM_append, ho]
      exact ih hos

/-- **Every form is closed as it was opened.** -/
theorem foldlM_tokens (o : Outline) (n : ℕ) : (o.tokens n).foldlM nextOpen n = some n := by
  induction o using induct generalizing n with
  | atom a =>
      rw [tokens, List.foldlM_cons, nextOpen_atom]
      rfl
  | form head isForm operands ih =>
      have hopen : nextOpen n (.paren n, "(") = some (n + 1) := by simp [nextOpen]
      have hclose : nextOpen (n + 1) (.paren n, ")") = some n := by simp [nextOpen]
      have hoperands := foldlM_tokensAll fun o ho => ih o ho (n + 1)
      simp only [tokens, List.foldlM_cons, List.foldlM_append, hopen, nextOpen_head, hoperands,
        List.foldlM_nil, Option.bind_eq_bind, Option.bind_some, hclose]
      rfl

end Outline

/-- Where a colour stands among those of parentheses; the last number is for one that is not. -/
def Colour.turn : Colour → ℕ
  | .blue => 0
  | .green => 1
  | .white => 2
  | .yellow => 3
  | .red => 4
  | .magenta => 5
  | .cyan => 6

/-- The colours of parentheses take turns by sixes. -/
theorem turn_parenColour (depth : ℕ) : (parenColour depth).turn = depth % 6 := by
  have hlt : depth % 6 < 6 := Nat.mod_lt depth (by decide)
  unfold parenColour
  generalize depth % 6 = r at hlt ⊢
  match r, hlt with
  | 0, _ | 1, _ | 2, _ | 3, _ | 4, _ | 5, _ => rfl

/-- Parentheses look alike exactly if the numbers of forms around them differ by a multiple of
six. -/
theorem appearance_paren_inj (m n : ℕ) :
    (Style.paren m).appearance = (Style.paren n).appearance ↔ m % 6 = n % 6 := by
  constructor
  · intro h
    have hcolour : parenColour m = parenColour n := by simpa [Style.appearance] using h
    rw [← turn_parenColour, hcolour, turn_parenColour]
  · intro h
    rw [Style.appearance, Style.appearance, parenColour, parenColour, h]

/-! ### Coloured prints -/

/-- **Coloured and plain print agree.** Whatever is under a handle, and for every width: the
coloured print writes what the plain one does. Its calls are those of a pen that enters and leaves
marks while the document is laid out. Taking on an appearance and giving it up alternate, up to the
end. Each token is written with its appearance and alone, and blanks are written without one. The
parentheses of a form with `n` forms around it look as `n % 6` says, both of them. -/
theorem Graph.coloured_agrees (g : Graph) (width : ℕ) (h : Handle) :
    String.join ((g.penCalls width h).map PenCall.written) = g.print width h ∧
    (g.doc h).marked.calls width = g.penCalls width h ∧
    (g.penCalls width h).foldlM PenCall.next false = some false ∧
    Inked ((g.outline depthLimit h).tokens 0) (g.penCalls width h) ∧
    ((g.outline depthLimit h).tokens 0).foldlM nextOpen 0 = some 0 ∧
    ∀ m n, (Style.paren m).appearance = (Style.paren n).appearance ↔ m % 6 = n % 6 := by
  have hcalls : g.penCalls width h =
      ((g.outline depthLimit h).layout width [] 0).flatMap Piece.penCalls := by
    rw [penCalls, toList_render_doc]
  have hinked : Inked ((g.outline depthLimit h).tokens 0) (g.penCalls width h) := by
    rw [hcalls]
    exact (g.outline depthLimit h).inked_layout [] 0
  refine ⟨?_, MarkedDoc.calls_marked width (g.doc h), hinked.alternates, hinked,
    Outline.foldlM_tokens _ 0, appearance_paren_inj⟩
  apply String.toList_injective
  rw [hcalls, toList_join_written, toList_print]

end SharedExpr
