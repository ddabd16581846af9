import SharedExpr.Print.Expression
import SharedExpr.Proofs.Graph.Agreement
import SharedExpr.Proofs.Graph.Descent

/-!
# What is printed of a node

A document is built down to a number of levels of forms. That many levels are needed for expressions
in graphs with cycles, which there are none of: below a node of an ordered graph there are only so
many levels, and a higher limit changes nothing.

* `Graph.docBelow_eq_of_rank` — two limits above the rank of a node make the same document.
* `Graph.Ordered.exists_docBelow_eq` — **from some limit on the document is the whole expression**.
* `Graph.doc_of_agreesBelow` — graphs that agree below a node make the same document of it, which is
  all that is looked at in printing.
-/

namespace SharedExpr.Graph

variable {g k : Graph} {h : Handle}

/-! ### Levels -/

/-- Limits above the rank of a handle make no difference to its document. -/
theorem docBelow_eq_of_rank {rank : Handle → ℕ}
    (hrank : ∀ p c, (p, c) ∈ g.edges → rank c < rank p) {limit limit' : ℕ}
    (hlimit : rank h < limit) (hlimit' : rank h < limit') (depth : ℕ) :
    g.docBelow limit depth h = g.docBelow limit' depth h := by
  induction limit generalizing limit' h depth with
  | zero => exact absurd hlimit (Nat.not_lt_zero _)
  | succ limit ih =>
      obtain ⟨limit', rfl⟩ := Nat.exists_eq_add_one_of_ne_zero (Nat.ne_zero_of_lt hlimit')
      unfold docBelow
      split
      · rfl
      · rename_i n hn
        split
        · rfl
        · -- a form: its operands have lower ranks
          have hchild : ∀ c ∈ n.children, g.docBelow limit (depth + 1) c =
              g.docBelow limit' (depth + 1) c := by
            intro c hc
            have hlt : rank c < rank h := by
              apply hrank h c
              rw [mem_edges_iff, childrenOf, hn]
              exact hc
            exact ih (by omega) (by omega) (depth + 1)
          dsimp only
          rw [List.map_congr_left hchild]

/-- **From some limit on, the limit does not matter.** -/
theorem Ordered.exists_docBelow_eq (hg : g.Ordered) (h : Handle) :
    ∃ limit, ∀ limit' ≥ limit, ∀ depth, g.docBelow limit' depth h = g.docBelow limit depth h := by
  obtain ⟨rank, hrank⟩ := hg.rank
  refine ⟨rank h + 1, ?_⟩
  intro limit' hle depth
  exact docBelow_eq_of_rank hrank hle (Nat.lt_succ_self _) depth

/-! ### Graphs that agree -/

/-- Graphs that agree below a handle have the same document for it. -/
theorem docBelow_of_agreesBelow (hk : g.AgreesBelow k h) (remaining depth : ℕ) :
    k.docBelow remaining depth h = g.docBelow remaining depth h := by
  induction remaining generalizing h depth with
  | zero =>
      unfold docBelow
      rw [hk.node?_eq]
  | succ remaining ih =>
      unfold docBelow
      rw [hk.node?_eq]
      cases hn : g.node? h with
      | none => rfl
      | some n =>
          have hchild : ∀ c ∈ n.children, k.docBelow remaining (depth + 1) c =
              g.docBelow remaining (depth + 1) c :=
            fun c hc => ih (hk.of_child hn hc) (depth + 1)
          dsimp only
          rw [List.map_congr_left hchild]

/-- The document of a node is the same in graphs that agree below it. -/
theorem doc_of_agreesBelow (hk : g.AgreesBelow k h) : k.doc h = g.doc h :=
  docBelow_of_agreesBelow hk depthLimit 0

end SharedExpr.Graph
