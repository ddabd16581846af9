import SharedExpr.Print.Expression
import SharedExpr.Proofs.Graph.Unfolding

/-!
# Outlines

What is printed of an expression is less than the expression: forms that are too deep are left out,
and what is not live is said to be dangling. What is left is an outline, a tree of forms over texts
that stand alone. It no longer knows handles or sharing, and its document is that of the expression.

* `Outline`, `Outline.doc` — outlines and their documents.
* `Graph.outline`, `Graph.docBelow_eq` — the outline of what is under a handle down to a number of
  levels of forms; **it determines the document**.
* `Tree.truncate`, `Graph.StandsFor.outline_eq` — of a handle that stands for a tree, the outline is
  the tree, cut off at that level.
* `Graph.StandsFor.eq_of_truncate_eq` — a tree that has no more levels than that is not cut.
-/

namespace SharedExpr

/-! ### Heads in print -/

/-- Whether a head is of a kind that never has children. -/
def Head.isLeaf : Head → Bool
  | .intLiteral _ | .varUse _ => true
  | .comparison _ | .arithmetic _ | .call _ => false

/-- What a head is in print. -/
def Head.style : Head → Style
  | .intLiteral _ => .literal
  | .comparison _ | .arithmetic _ => .operator
  | .varUse _ => .identifier
  | .call _ => .callee

/-- How a head is written. -/
def Head.text : Head → String
  | .intLiteral value => Int.repr value.toInt
  | .comparison op => op.symbol
  | .arithmetic op => op.symbol
  | .varUse name => name
  | .call callee => callee

/-- A node is a leaf if its head is that of a leaf. -/
@[simp] theorem Node.isLeaf_head (n : Node) : n.head.isLeaf = n.isLeaf := by
  cases n <;> rfl

/-- The head of a node looks as the node asks for. -/
@[simp] theorem Node.style_head (n : Node) : n.head.style = n.headText.1 := by
  cases n <;> rfl

/-- The head of a node is written as the node asks for. -/
@[simp] theorem Node.text_head (n : Node) : n.head.text = n.headText.2 := by
  cases n <;> rfl

/-! ### Outlines and their documents -/

/-- What is printed without parentheses around it. -/
inductive Atom where
  /-- An integer or a variable. -/
  | leaf (head : Head) (isLeaf : head.isLeaf = true)
  /-- What stands for a form that is too deep. -/
  | elided
  /-- What stands for a handle that is not live. -/
  | dangling (h : Handle)

namespace Atom

/-- What an atom is in print. -/
def style : Atom → Style
  | leaf head _ => head.style
  | elided => .elided
  | dangling _ => .error

/-- How an atom is written. -/
def text : Atom → String
  | leaf head _ => head.text
  | elided => "..."
  | dangling h => h.danglingText

end Atom

/-- What is printed of an expression. -/
inductive Outline where
  /-- A text that stands alone. -/
  | atom (a : Atom)
  /-- A form: a head over its operands, in order. -/
  | form (head : Head) (isForm : head.isLeaf = false) (operands : List Outline)

namespace Outline

/-- Induction over outlines: what holds of every operand of a form holds of the form. -/
@[elab_as_elim]
theorem induct {P : Outline → Prop} (atom : ∀ a, P (.atom a))
    (form : ∀ head isForm operands, (∀ o ∈ operands, P o) → P (.form head isForm operands))
    (o : Outline) : P o :=
  @Outline.rec P (fun os => ∀ o ∈ os, P o) atom form
    (fun _ ho => absurd ho List.not_mem_nil)
    (fun _ _ ho hos _ hmem => (List.mem_cons.1 hmem).elim (fun heq => heq ▸ ho) (hos _)) o

mutual

/-- The document of an outline with `depth` forms around it. -/
def doc (depth : ℕ) : Outline → Doc Style
  | .atom a => .text a.style a.text
  | .form head _ operands =>
    formDoc depth (.text head.style head.text) (docs (depth + 1) operands)

/-- The documents of outlines with `depth` forms around them. -/
def docs (depth : ℕ) : List Outline → List (Doc Style)
  | [] => []
  | o :: os => doc depth o :: docs depth os

end

/-- The documents of outlines are those of each of them. -/
theorem docs_eq_map (depth : ℕ) (os : List Outline) : docs depth os = os.map (doc depth) := by
  induction os with
  | nil => rfl
  | cons o os ih => simp [docs, ih]

end Outline

/-! ### The outline under a handle -/

namespace Graph

variable {g : Graph} {h : Handle}

/-- The outline of the expression under a handle, of which `remaining` levels of forms are
printed. -/
def outline (g : Graph) : (remaining : ℕ) → Handle → Outline
  | remaining, h =>
    match g.node? h with
    | none => .atom (.dangling h)
    | some n =>
      if hleaf : n.isLeaf then .atom (.leaf n.head (by simpa using hleaf))
      else
        match remaining with
        | 0 => .atom .elided
        | remaining + 1 =>
          .form n.head (by simpa using hleaf) (n.children.map fun c => g.outline remaining c)

/-- **The document of an expression is that of its outline.** -/
theorem docBelow_eq (g : Graph) (remaining depth : ℕ) (h : Handle) :
    g.docBelow remaining depth h = (g.outline remaining h).doc depth := by
  induction remaining generalizing depth h with
  | zero =>
      unfold docBelow outline
      cases hn : g.node? h with
      | none => rfl
      | some n => by_cases hleaf : n.isLeaf <;> simp [hleaf, Outline.doc, Atom.style, Atom.text]
  | succ remaining ih =>
      unfold docBelow outline
      cases hn : g.node? h with
      | none => rfl
      | some n =>
          by_cases hleaf : n.isLeaf
          · simp [hleaf, Outline.doc, Atom.style, Atom.text]
          · simp [hleaf, Outline.doc, Outline.docs_eq_map, Function.comp_def, ih]

/-- The document of a handle is that of its outline. -/
theorem doc_eq (g : Graph) (h : Handle) : g.doc h = (g.outline depthLimit h).doc 0 :=
  g.docBelow_eq depthLimit 0 h

end Graph

/-! ### Trees that are cut off -/

namespace Tree

/-- The outline of a tree, of which `remaining` levels of forms are printed. -/
def truncate : (remaining : ℕ) → Tree → Outline
  | remaining, .node head operands =>
    if hleaf : head.isLeaf then .atom (.leaf head hleaf)
    else
      match remaining with
      | 0 => .atom .elided
      | remaining + 1 =>
        .form head (by simpa using hleaf) (operands.map fun t => t.truncate remaining)

mutual

/-- The number of levels of forms of a tree. -/
def nesting : Tree → ℕ
  | .node head operands => if head.isLeaf then 0 else deepest operands + 1

/-- The greatest number of levels of forms of some trees. -/
def deepest : List Tree → ℕ
  | [] => 0
  | t :: ts => max t.nesting (deepest ts)

end

/-- A tree has no more levels of forms than the deepest of some trees of which it is one. -/
theorem nesting_le_deepest {t : Tree} {ts : List Tree} (ht : t ∈ ts) : t.nesting ≤ deepest ts := by
  induction ts with
  | nil => cases ht
  | cons s ts ih =>
      rw [deepest]
      rcases List.mem_cons.1 ht with rfl | ht
      · exact le_max_left _ _
      · exact (ih ht).trans (le_max_right _ _)

/-- The outline of a tree that is not cut tells the head and the outlines of the operands. -/
theorem truncate_node_inj {head head' : Head} {ts us : List Tree} {remaining : ℕ}
    (hlevels : (node head ts).nesting ≤ remaining)
    (heq : (node head ts).truncate remaining = (node head' us).truncate remaining) :
    head = head' ∧ (head.isLeaf = false → ∃ levels, (∀ t ∈ ts, t.nesting ≤ levels) ∧
      ts.map (fun t => t.truncate levels) = us.map fun u => u.truncate levels) := by
  unfold nesting at hlevels
  unfold truncate at heq
  by_cases hleaf : head.isLeaf
  · by_cases hleaf' : head'.isLeaf
    · simp_all
    · cases remaining <;> simp [hleaf, hleaf'] at heq
  · replace hlevels : deepest ts + 1 ≤ remaining := by simpa [hleaf] using hlevels
    obtain ⟨levels, rfl⟩ := Nat.exists_eq_add_one_of_ne_zero (by omega : remaining ≠ 0)
    by_cases hleaf' : head'.isLeaf
    · simp [hleaf, hleaf'] at heq
    · obtain ⟨hhead, hoperands⟩ : head = head' ∧
          ts.map (fun t => t.truncate levels) = us.map fun u => u.truncate levels := by
        simpa [hleaf, hleaf'] using heq
      have hbound : ∀ t ∈ ts, t.nesting ≤ levels := fun t ht =>
        (nesting_le_deepest ht).trans (by omega)
      exact ⟨hhead, fun _ => ⟨levels, hbound, hoperands⟩⟩

end Tree

namespace Graph

variable {g k : Graph} {a b h : Handle} {t u : Tree} {remaining : ℕ}

/-- The outline of a handle that stands for a tree is the tree, cut off. -/
theorem StandsFor.outline_eq (ht : g.StandsFor h t) (remaining : ℕ) :
    g.outline remaining h = t.truncate remaining := by
  induction remaining generalizing h t with
  | zero =>
      obtain ⟨n, ts, hn, rfl, -⟩ := ht.exists_node?
      unfold outline Tree.truncate
      simp [hn]
  | succ remaining ih =>
      obtain ⟨n, ts, hn, rfl, hts⟩ := ht.exists_node?
      have hoperands : n.children.map (fun c => g.outline remaining c) =
          ts.map fun t => t.truncate remaining := by
        rw [← List.forall₂_eq_eq_eq, List.forall₂_map_left_iff, List.forall₂_map_right_iff]
        exact hts.imp fun _ _ ht => ih ht
      unfold outline Tree.truncate
      simp [hn, hoperands]

/-- What stands for an integer or a variable has no operands. -/
theorem StandsFor.operands_of_isLeaf {head : Head} {ts : List Tree}
    (ht : g.StandsFor h (.node head ts)) (hleaf : head.isLeaf = true) : ts = [] := by
  obtain ⟨n, us, -, heq, hus⟩ := ht.exists_node?
  obtain ⟨rfl, rfl⟩ := Tree.node.inj heq
  rw [Node.children_of_isLeaf (by simpa using hleaf)] at hus
  exact List.forall₂_nil_left_iff.1 hus

/-- **Where no level is cut off, the outline is the tree.** It is enough that one of the two trees
is not cut. -/
theorem StandsFor.eq_of_truncate_eq (ha : g.StandsFor a t) (hb : k.StandsFor b u)
    (hlevels : t.nesting ≤ remaining) (heq : t.truncate remaining = u.truncate remaining) :
    t = u := by
  have ht := ha
  induction ha generalizing b u remaining with
  | @intro a n ts hn hlen hts ih =>
      obtain ⟨m, us, hm, rfl, hus⟩ := hb.exists_node?
      obtain ⟨hhead, hoperands⟩ := Tree.truncate_node_inj hlevels heq
      by_cases hleaf : n.head.isLeaf
      · rw [ht.operands_of_isLeaf hleaf, hb.operands_of_isLeaf (hhead ▸ hleaf), hhead]
      · obtain ⟨levels, hbound, hmap⟩ := hoperands (by simpa using hleaf)
        rw [← List.forall₂_eq_eq_eq, List.forall₂_map_left_iff, List.forall₂_map_right_iff] at hmap
        have hall : List.Forall₂ (fun c t => g.StandsFor c t ∧ ∀ d u, k.StandsFor d u →
            t.nesting ≤ levels → t.truncate levels = u.truncate levels → t = u) n.children ts :=
          List.forall₂_iff_zip.2 ⟨hlen, fun hp =>
            ⟨hts _ hp, fun _ _ hd hlevels heq => ih _ hp hd hlevels heq (hts _ hp)⟩⟩
        have hoperands : List.Forall₂ (· = ·) ts us := by
          refine List.forall₂_iff_zip.2 ⟨hmap.length_eq, ?_⟩
          intro t u hp
          obtain ⟨ht, hu⟩ := List.of_mem_zip hp
          obtain ⟨c, -, hunique⟩ := exists_of_forall₂ hall t ht
          obtain ⟨d, hd⟩ := exists_of_forall₂ hus u hu
          exact hunique d u hd (hbound t ht) (List.forall₂_zip hmap hp)
        rw [List.forall₂_eq_eq_eq] at hoperands
        rw [hhead, hoperands]

end Graph

end SharedExpr
