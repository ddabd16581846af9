import SharedExpr.Proofs.Graph.Equality
import SharedExpr.Proofs.History.Issue
import SharedExpr.Proofs.Print.Depth
import SharedExpr.Proofs.Walk.Ending

/-!
# No history makes a cycle

A node is built over nodes that are there, and keeps its operands. Its operands may go before it,
when counts were tampered with, and their slots may be given to nodes that are built over it; but
these get handles of their own, and the operand that is gone is not one of them.

* `History.issued_of_mem_edges` — the operands of a live node were issued before it, the ones that
  are gone included.
* `History.acyclic` — **so no node reaches itself, and whatever follows edges comes to an end**: a
  cascade, a comparison of expressions, a walk to all children, the document of an expression.
-/

namespace SharedExpr.History

variable {H : History} {p c : Handle}

/-- The operands of a live node were issued before it. -/
theorem issued_of_mem_edges (hpc : (p, c) ∈ H.graph.edges) :
    c ∈ H.issued ∧ p ∈ H.issued ∧ H.issued.idxOf c < H.issued.idxOf p := by
  obtain ⟨n, hn⟩ := Graph.contains_iff_node?.1 (Graph.contains_of_mem_edges hpc)
  have hc : c ∈ n.children := by
    rw [Graph.mem_edges_iff, Graph.childrenOf, hn] at hpc
    exact hpc
  have hmade := mem_made_of_node? hn
  obtain ⟨hissued, hlt⟩ := idxOf_lt_of_mem_made hmade hc
  exact ⟨hissued, mem_issued_of_mem_made hmade, hlt⟩

/-- **No history makes a cycle.** No handle is issued twice, and every child of a live node was
issued strictly before it. So edges are well-founded and no node reaches itself. Cascades end;
comparing pair by pair, without a table, ends, with the answer that is given with one; a walk ends
if its visitor always asks for all children; and the document of an expression has only so many
levels. No handle is issued twice as long as generations of slots do not wrap round
(`SharedExpr.Store.Basic`). -/
theorem acyclic (H : History) :
    H.issued.Nodup ∧
    (∀ p c, (p, c) ∈ H.graph.edges →
      c ∈ H.issued ∧ p ∈ H.issued ∧ H.issued.idxOf c < H.issued.idxOf p) ∧
    (WellFounded fun c p => (p, c) ∈ H.graph.edges) ∧
    (∀ h, ¬ Relation.TransGen (fun p c => (p, c) ∈ H.graph.edges) h h) ∧
    (∀ h, ∃ steps result,
      (Cascade.start (H.graph.unroot h) h).runWithin steps = some result) ∧
    (∀ (K : History) (a b : Handle), ∃ rounds,
      H.graph.compareWithin K.graph rounds [(a, b)] =
        some (H.graph.sameExpression a K.graph b)) ∧
    (∀ (σ ι : Type) (visitor : Visitor σ ι),
      (∀ s v n, ∃ input, (visitor s v n).2 = [.children input]) → ∀ start input state, ∃ fuel,
        (H.graph.walk fuel start input visitor state).ending ≠ .outOfFuel) ∧
    ∀ h, ∃ limit, ∀ limit' ≥ limit, ∀ depth,
      H.graph.docBelow limit' depth h = H.graph.docBelow limit depth h := by
  have hordered := H.ordered
  refine ⟨H.nodup_issued, fun p c => issued_of_mem_edges, hordered.wellFounded,
    hordered.not_transGen_self, ?_, ?_, ?_, hordered.exists_docBelow_eq⟩
  · intro h
    obtain ⟨steps, hsteps⟩ := (Cascade.start (H.graph.unroot h) h).exists_runWithin
    exact ⟨steps, _, hsteps⟩
  · intro K a b
    exact hordered.exists_compareWithin K.graph a b
  · intro σ ι visitor hchildren start input state
    apply hordered.exists_walk_ends
    intro s v n again hmem
    obtain ⟨x, hx⟩ := hchildren s v n
    rw [hx] at hmem
    simp at hmem

/-- A number that is added to itself and loses both references, as if the sum did not need it. -/
def abandoned : History where
  id := ⟨1⟩
  settings := .standard
  commands := [.intLiteral 7, .arithmetic .add [.ofSlot 1 0, .ofSlot 1 0],
    .decrement (.ofSlot 1 0), .decrement (.ofSlot 1 0), .root (.ofSlot 1 0)]

/-- The number goes, and a call of a function on the sum moves into its slot. -/
def reoccupied : History :=
  (abandoned.andThen (.release ⟨.ofSlot 1 0⟩)).andThen (.call "f" [.ofSlot 1 1])

/-- The call is above the sum, and the sum still names the number whose slot the call is in. -/
theorem reoccupied_acyclic :
    (⟨⟨1⟩, some ⟨0, 1⟩⟩, .ofSlot 1 1) ∈ reoccupied.graph.edges ∧
      (.ofSlot 1 1, .ofSlot 1 0) ∈ reoccupied.graph.edges ∧
      reoccupied.issued.idxOf (.ofSlot 1 0) < reoccupied.issued.idxOf ⟨⟨1⟩, some ⟨0, 1⟩⟩ := by
  have hrun : ((Cascade.start (abandoned.graph.unroot (.ofSlot 1 0)) (.ofSlot 1 0)).runWithin
      2).map (fun result => (result.1,
        ((result.2.write .debug (Graph.releaseRecord (.ofSlot 1 0) 1 result.2.size)).perform
          (.call "f" [.ofSlot 1 1])).2.edges)) =
        some (.done #[.ofSlot 1 0], [(⟨⟨1⟩, some ⟨0, 1⟩⟩, .ofSlot 1 1),
          (.ofSlot 1 1, .ofSlot 1 0), (.ofSlot 1 1, .ofSlot 1 0)]) := by decide
  obtain ⟨⟨outcome, G⟩, hG, heq⟩ := Option.map_eq_some_iff.1 hrun
  obtain ⟨rfl, hedges⟩ := Prod.mk.inj heq
  have hnumber : abandoned.graph.get? (.ofSlot 1 0) = some ⟨.intLiteral 7, .zero, true⟩ := by
    decide
  have hafter : reoccupied.graph.edges = [(⟨⟨1⟩, some ⟨0, 1⟩⟩, .ofSlot 1 1),
      (.ofSlot 1 1, .ofSlot 1 0), (.ofSlot 1 1, .ofSlot 1 0)] := by
    rw [reoccupied, graph_andThen,
      graph_andThen_release (r := ⟨.ofSlot 1 0⟩) hnumber rfl rfl hG]
    exact hedges
  have hcall : (⟨⟨1⟩, some ⟨0, 1⟩⟩, .ofSlot 1 1) ∈ reoccupied.graph.edges := by
    rw [hafter]
    exact List.mem_cons_self
  have hsum : (.ofSlot 1 1, .ofSlot 1 0) ∈ reoccupied.graph.edges := by
    rw [hafter]
    exact List.mem_cons_of_mem _ List.mem_cons_self
  obtain ⟨-, hissued, -⟩ := acyclic reoccupied
  obtain ⟨-, -, hbefore⟩ := hissued _ _ hsum
  obtain ⟨-, -, hafter⟩ := hissued _ _ hcall
  exact ⟨hcall, hsum, hbefore.trans hafter⟩

end SharedExpr.History
