import SharedExpr.Proofs.Graph.Audit
import SharedExpr.Proofs.Graph.Unfolding
import SharedExpr.Proofs.History.Listing
import SharedExpr.Proofs.Walk.Discipline

/-!
# Edges that lead to nothing: the audit and the readers

An audit goes through the entries of a graph and knows no start. A listing, a comparison and every
other walk begin at a node and see only what it reaches. They meet the same edges to nodes that are
gone: each reader gets through below a node exactly if the audit reports no such edge of what the
node reaches.

* `Graph.danglingEdge_mem_audit_iff` — the edges that an audit reports.
* `Graph.whole_iff_audit` — a live node is whole exactly if no edge of what it reaches is reported;
  `Graph.Ordered.reachable_finished_iff`, `Graph.Ordered.postorder_finished_iff` and
  `Graph.Ordered.sameExpression_self_iff` — each reader gets through exactly below whole nodes.
* `Graph.mem_audit_of_failed` — the edge at which a walk fails is reported.
* `History.audit_agrees` — **the audit and the readers agree**, in every history.
-/

namespace SharedExpr

namespace Graph

variable {g : Graph} {h p c : Handle}

/-! ### What is reported -/

/-- An audit reports the edges to nodes that are not live. -/
theorem danglingEdge_mem_audit_iff :
    .danglingEdge p c ∈ g.audit ↔ (p, c) ∈ g.edges ∧ ¬ g.contains c := by
  constructor
  · intro hmem
    rcases of_mem_audit hmem with ⟨h, -, hmismatch⟩ | ⟨p', c', hedge, hdead, heq⟩
    · cases hmismatch
    · cases heq
      exact ⟨hedge, hdead⟩
  · rintro ⟨hedge, hdead⟩
    exact List.mem_append_left _ (mem_danglingEdges.2 ⟨p, c, hedge, hdead, rfl⟩)

/-- A live node is whole exactly if no edge of what it reaches is reported. -/
theorem whole_iff_audit (hh : g.contains h) :
    g.Whole h ↔ ∀ p c, g.Reaches h p → .danglingEdge p c ∉ g.audit := by
  constructor
  · intro hwhole p c hp hmem
    obtain ⟨hedge, hdead⟩ := danglingEdge_mem_audit_iff.1 hmem
    exact hdead (hwhole c (hp.tail hedge))
  · intro hnone l hl
    rcases Relation.ReflTransGen.cases_tail hl with rfl | ⟨p, hp, hedge⟩
    · exact hh
    · by_contra hdead
      exact hnone p l hp (danglingEdge_mem_audit_iff.2 ⟨hedge, hdead⟩)

/-! ### What the readers get through -/

/-- A listing in pre-order is finished exactly if all is live below the handle. -/
theorem Ordered.reachable_finished_iff (hg : g.Ordered) (h : Handle) :
    (g.reachable h).ending = .finished ↔ g.Whole h := by
  refine ⟨fun hend => ?_, Whole.reachable_finished⟩
  rcases hg.listings_cases h with ⟨-, hfail, -⟩ | ⟨-, p, c, -, hfail, -⟩ | ⟨hlive, hnone, -⟩
  · rw [hfail] at hend
    cases hend
  · rw [hfail] at hend
    cases hend
  · exact (hg.firstDangling_eq_none_iff_whole hlive).1 hnone

/-- A listing in post-order is finished exactly if all is live below the handle. -/
theorem Ordered.postorder_finished_iff (hg : g.Ordered) (h : Handle) :
    (g.postorder h).ending = .finished ↔ g.Whole h := by
  refine ⟨fun hend => ?_, Whole.postorder_finished⟩
  rcases hg.listings_cases h with ⟨-, -, hfail⟩ | ⟨-, p, c, -, -, hfail⟩ | ⟨hlive, hnone, -⟩
  · rw [hfail] at hend
    cases hend
  · rw [hfail] at hend
    cases hend
  · exact (hg.firstDangling_eq_none_iff_whole hlive).1 hnone

/-- A handle is the same expression as itself exactly if it stands for one. -/
theorem Ordered.sameExpression_self_iff (hg : g.Ordered) (h : Handle) :
    g.sameExpression h g h ↔ g.Whole h := by
  rw [hg.sameExpression_iff_exists_standsFor, hg.whole_iff_exists_standsFor]
  exact exists_congr fun t => and_self_iff

/-- The edge at which a walk fails is reported. -/
theorem mem_audit_of_failed {σ ι : Type} {fuel : ℕ} {input : ι} {visitor : Visitor σ ι} {state : σ}
    {fault : Fault} (hh : g.contains h)
    (hfault : (g.walk fuel h input visitor state).ending = .failed fault) : fault ∈ g.audit := by
  obtain ⟨p, c, rfl, hedge, hdead⟩ := exists_danglingEdge_of_failed hh hfault
  exact danglingEdge_mem_audit_iff.2 ⟨hedge, hdead⟩

end Graph

namespace History

/-- **The audit and the readers agree on edges that lead to nothing**, in every history, whatever
became of the counts. From a live node both listings are carried through, and the node is the same
expression as itself, or none of this holds; and it holds exactly if the audit reports no such edge
of a node that is reached. Whatever the visitor of a walk asks for, a fault with which the walk ends
is one that the audit reports. And the audit reports such an edge somewhere exactly if there is a
live node below which a listing fails. That readers come to an end, and take a node that is gone for
no other one, rests on generations of slots that do not wrap round (`SharedExpr.Store.Basic`). -/
theorem audit_agrees (H : History) :
    (∀ h, H.graph.contains h →
      ((H.graph.reachable h).ending = .finished ↔ (H.graph.postorder h).ending = .finished) ∧
      ((H.graph.postorder h).ending = .finished ↔ H.graph.sameExpression h H.graph h) ∧
      (H.graph.sameExpression h H.graph h ↔
        ∀ p c, H.graph.Reaches h p → .danglingEdge p c ∉ H.graph.audit) ∧
      ∀ (σ ι : Type) (visitor : Visitor σ ι) (fuel : ℕ) (input : ι) (state : σ) (fault : Fault),
        (H.graph.walk fuel h input visitor state).ending = .failed fault →
          fault ∈ H.graph.audit) ∧
    ((∃ p c, .danglingEdge p c ∈ H.graph.audit) ↔
      ∃ h, H.graph.contains h ∧ ∃ fault, (H.graph.reachable h).ending = .failed fault) := by
  have hreachable := H.ordered.reachable_finished_iff
  have hpostorder := H.ordered.postorder_finished_iff
  have hsame := H.ordered.sameExpression_self_iff
  refine ⟨fun h hh => ⟨?_, ?_, ?_, ?_⟩, ?_, ?_⟩
  · rw [hreachable, hpostorder]
  · rw [hpostorder, hsame]
  · rw [hsame, Graph.whole_iff_audit hh]
  · exact fun σ ι visitor fuel input state fault => Graph.mem_audit_of_failed hh
  · -- the parent of a reported edge is live, and the listing from there does not get through
    rintro ⟨p, c, hmem⟩
    have hp := Graph.contains_of_mem_edges (Graph.danglingEdge_mem_audit_iff.1 hmem).1
    refine ⟨p, hp, ?_⟩
    cases hend : (H.graph.reachable p).ending with
    | finished =>
        have hwhole := (hreachable p).1 hend
        exact absurd hmem ((Graph.whole_iff_audit hp).1 hwhole p c .refl)
    | failed fault => exact ⟨fault, rfl⟩
    | outOfFuel => exact absurd hend (H.graph.reachable_ending_ne_outOfFuel p)
  · rintro ⟨h, hh, fault, hfault⟩
    have hnot : ¬ H.graph.Whole h := by
      rw [← hreachable, hfault]
      simp
    rw [Graph.whole_iff_audit hh] at hnot
    push Not at hnot
    obtain ⟨p, c, -, hmem⟩ := hnot
    exact ⟨p, c, hmem⟩

/-- A sum that has lost its operand is not the same expression as itself, a walk that comes to it
fails, and the audit reports the edge. -/
theorem orphaned_audit :
    .danglingEdge (.ofSlot 1 1) (.ofSlot 1 0) ∈ orphaned.graph.audit ∧
      orphaned.graph.sameExpression (.ofSlot 1 1) orphaned.graph (.ofSlot 1 1) = false ∧
      (orphaned.graph.postorder (.ofSlot 1 1)).ending ≠ .finished := by
  obtain ⟨hedges, hsum, hnumber⟩ := orphaned_edges
  have hmem : .danglingEdge (.ofSlot 1 1) (.ofSlot 1 0) ∈ orphaned.graph.audit := by
    rw [Graph.danglingEdge_mem_audit_iff, hedges]
    exact ⟨List.mem_cons_self, hnumber⟩
  obtain ⟨-, hpostorder, hsame, -⟩ := (audit_agrees orphaned).1 _ hsum
  have hnot : ¬ orphaned.graph.sameExpression (.ofSlot 1 1) orphaned.graph (.ofSlot 1 1) :=
    fun heq => hsame.1 heq _ _ .refl hmem
  exact ⟨hmem, Bool.eq_false_iff.2 hnot, fun hend => hnot (hpostorder.1 hend)⟩

end History

end SharedExpr
