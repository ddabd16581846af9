import SharedExpr.Proofs.Cascade.Moves
import SharedExpr.Proofs.Graph.Edges
import SharedExpr.Proofs.Graph.Frame

/-!
# What a cascade conserves

The totals of a graph move with what the cascade does, so certain sums stay the same: nodes released
and nodes live; references taken away, defects recorded and edges that are left, in the graph or on
the list of those to be dropped.

* `Cascade.Conserves` — the sums, compared with the graph in which the cascade began.
* `Cascade.Conserves.move` — **every move keeps them**, whatever the counts say.
-/

namespace SharedExpr

/-- A node that is reclaimed takes its edges away. -/
theorem Graph.edges_perm_reclaim {g : Graph} {h : Handle} {e : Entry} (he : g.get? h = some e)
    (kind : Kind) :
    g.edges.Perm ((e.node.children.map fun c => (h, c)) ++ (g.reclaim h kind).edges) := by
  apply edges_perm_append he
  intro l
  rw [childrenOf, node?_reclaim]
  split <;> rfl

namespace Cascade

variable {g : Graph} {r : Handle} {c d : Cascade}

/-- The sums that a cascade leaves as they were in `g`. -/
structure Conserves (g : Graph) (c : Cascade) : Prop where
  /-- No node is added. -/
  constructed : c.graph.totals.constructed = g.totals.constructed
  /-- No reference is added. -/
  increments : c.graph.totals.increments = g.totals.increments
  /-- A node is live or released. -/
  released : c.graph.totals.released + c.graph.size = g.totals.released + g.size
  /-- An edge is in the graph, still to be dropped, dropped, or recorded as a defect. -/
  dropped : c.graph.totals.decrements + c.graph.defects.size + c.edges.length
      + c.graph.edges.length = g.totals.decrements + g.defects.size + g.edges.length

/-- At the start all sums are those of the graph. -/
theorem conserves_start (g : Graph) (r : Handle) : Conserves g (start g r) :=
  ⟨rfl, rfl, rfl, rfl⟩

/-- Every move keeps the sums. -/
theorem Conserves.move (hc : Conserves g c) (hm : Move c d) : Conserves g d := by
  cases hm with
  | @lower G parent child edges pending report e count he hcount =>
      have hedges : (G.lowerTo child count).edges.length = G.edges.length :=
        (Graph.edges_perm fun p =>
          .of_eq (Graph.childrenOf_congr (G.node?_lowerTo child count p))).length_eq
      have hd := hc.dropped
      simp only [List.length_cons] at hd
      refine ⟨by simpa using hc.constructed, by simpa using hc.increments,
        by simpa using hc.released, ?_⟩
      simp only [Graph.totals_lowerTo, Graph.defects_lowerTo, hedges]
      omega
  | @defect G parent child edges pending report fault hf hp =>
      have hedges : (G.note child fault).edges.length = G.edges.length :=
        (Graph.edges_perm fun p =>
          .of_eq (Graph.childrenOf_congr (G.node?_note child fault p))).length_eq
      have hd := hc.dropped
      simp only [List.length_cons] at hd
      refine ⟨by simpa using hc.constructed, by simpa using hc.increments,
        by simpa using hc.released, ?_⟩
      simp only [Graph.totals_note, Graph.defects_note_of_report _ _ _ hp, Array.size_push, hedges]
      omega
  | @reclaim G h pending report e he =>
      have hlen := (Graph.edges_perm_reclaim he e.node.kind).length_eq
      rw [List.length_append, List.length_map] at hlen
      have hsize := Graph.size_reclaim he e.node.kind
      have hr := hc.released
      have hd := hc.dropped
      simp only [List.length_nil] at hr hd
      refine ⟨by simpa using hc.constructed, by simpa using hc.increments, ?_, ?_⟩
      · simp only [Graph.totals_reclaim]
        omega
      · simp only [Graph.totals_reclaim, Graph.defects_reclaim, List.length_map]
        omega
  | skip he => exact ⟨hc.constructed, hc.increments, hc.released, hc.dropped⟩

end Cascade

end SharedExpr
