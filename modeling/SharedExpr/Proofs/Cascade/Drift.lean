import SharedExpr.Proofs.Cascade.Totals

/-!
# How far counts drift in a cascade

Counts may be wrong when a cascade begins, and it does not make them right. But it does not make
them any more wrong than it admits: every edge that is dropped takes one reference from its child,
or else an underflow is recorded at the child, or the child is gone.

* `Graph.underflows` — how many underflows are recorded at a node.
* `Graph.Drifts` — of each live node, what its count and its edges have lost between two graphs
  differs by the underflows recorded in between. Edges that are still to be dropped are owed.
* `Cascade.drifts_of_move` — **every move keeps this**, whatever the counts say.
-/

namespace SharedExpr

/-- Whether the fault is an underflow at the node. -/
def Fault.isUnderflowAt (h : Handle) : Fault → Bool
  | .underflow l _ => l = h
  | _ => false

namespace Graph

variable {g G K : Graph} {h parent child : Handle} {e : Entry} {owed : List Handle}

/-! ### Recorded underflows -/

/-- The number of underflows at a node among the recorded defects. -/
def underflows (g : Graph) (h : Handle) : ℕ :=
  g.defects.toList.countP (Fault.isUnderflowAt h)

/-- Underflows are read off the recorded defects alone. -/
theorem underflows_congr (hd : G.defects = g.defects) (h : Handle) :
    G.underflows h = g.underflows h := by
  rw [underflows, underflows, hd]

/-- Under the reporting policy a defect that is noted is one underflow more at its node, if it is
one. -/
theorem underflows_note (hp : g.policy = .report) (l h : Handle) (fault : Fault) :
    (g.note l fault).underflows h =
      g.underflows h + if fault.isUnderflowAt h then 1 else 0 := by
  rw [underflows, defects_note_of_report _ _ _ hp, Array.toList_push, List.countP_append,
    List.countP_singleton]
  rfl

/-- A node that is reclaimed takes its child occurrences away. -/
theorem inDegree_reclaim (he : g.get? h = some e) (kind : Kind) (l : Handle) :
    e.node.children.count l + (g.reclaim h kind).inDegree l = g.inDegree l := by
  rw [inDegree, inDegree, ((edges_perm_reclaim he kind).map Prod.snd).count_eq l, List.map_append,
    List.count_append, List.map_map]
  congr 2
  exact (List.map_id _).symm

/-! ### Drift -/

/-- What has become of the counts of `g` in `G`, where edges to the children `owed` are still to be
dropped. -/
structure Drifts (g : Graph) (owed : List Handle) (G : Graph) : Prop where
  /-- The count of a live node has lost as many references as edges to it were dropped, but for the
  underflows. -/
  entry : ∀ h e, G.get? h = some e → ∃ e₀, g.get? h = some e₀ ∧
    e.count.value + g.inDegree h + g.underflows h =
      e₀.count.value + G.inDegree h + owed.count h + G.underflows h
  /-- Only nodes that were live have underflows since. -/
  dead : ∀ h, ¬ g.contains h → G.underflows h = g.underflows h
  /-- Defects are added to those recorded before. -/
  recorded : g.defects.toList <+: G.defects.toList

namespace Drifts

/-- Counts that were left alone have not drifted. -/
theorem refl (g : Graph) : g.Drifts [] g where
  entry h e he := ⟨e, he, by simp⟩
  dead _ _ := rfl
  recorded := List.prefix_rfl

/-- Drift is a matter of counts, nodes and recorded defects. -/
theorem congr (hg : g.Drifts owed G) (hcount : ∀ h, K.count? h = G.count? h)
    (hnode : ∀ h, K.node? h = G.node? h) (hdefects : K.defects = G.defects) :
    g.Drifts owed K where
  entry h e he := by
    obtain ⟨e', he', hvalue⟩ : ∃ e', G.get? h = some e' ∧ e'.count.value = e.count.value := by
      have := hcount h
      rw [count?, he] at this
      exact Option.map_eq_some_iff.1 this.symm
    obtain ⟨e₀, he₀, hsum⟩ := hg.entry h e' he'
    refine ⟨e₀, he₀, ?_⟩
    rw [← hvalue, hsum, inDegree_congr fun p => childrenOf_congr (hnode p),
      underflows_congr hdefects]
  dead h hh := (underflows_congr hdefects h).trans (hg.dead h hh)
  recorded := hdefects ▸ hg.recorded

/-- A reference is taken away for an edge that is dropped. -/
theorem lower {count : Count} (hg : g.Drifts (child :: owed) G) (he : G.get? child = some e)
    (hcount : e.count.decrement? = some count) : g.Drifts owed (G.lowerTo child count) where
  entry h e' he' := by
    have hone := Count.value_of_decrement? hcount
    rw [inDegree_congr (fun p => childrenOf_congr (G.node?_lowerTo child count p)),
      underflows_congr (G.defects_lowerTo child count)]
    rw [get?_lowerTo] at he'
    by_cases hh : h = child
    · subst hh
      obtain ⟨e₀, he₀, hsum⟩ := hg.entry h e he
      rw [if_pos rfl, he, Option.map_some, Option.some_inj] at he'
      subst he'
      rw [List.count_cons_self] at hsum
      exact ⟨e₀, he₀, by simp only; omega⟩
    · rw [if_neg hh] at he'
      obtain ⟨e₀, he₀, hsum⟩ := hg.entry h e' he'
      rw [List.count_cons_of_ne (Ne.symm hh)] at hsum
      exact ⟨e₀, he₀, hsum⟩
  dead h hh := (underflows_congr (G.defects_lowerTo child count) h).trans (hg.dead h hh)
  recorded := (G.defects_lowerTo child count).symm ▸ hg.recorded

/-- A defect is an underflow at a live child, or the child is gone. -/
theorem defect {fault : Fault} (hg : g.Drifts (child :: owed) G)
    (hf : G.edgeFate parent child = .defective fault) (hp : G.policy = .report) :
    g.Drifts owed (G.note child fault) where
  entry h e he := by
    rw [get?_note] at he
    rw [inDegree_congr (fun p => childrenOf_congr (G.node?_note child fault p)),
      underflows_note hp]
    obtain ⟨e₀, he₀, hsum⟩ := hg.entry h e he
    refine ⟨e₀, he₀, ?_⟩
    rw [List.count_cons] at hsum
    rcases of_edgeFate_eq_defective hf with ⟨hdead, rfl⟩ | ⟨-, -, -, rfl⟩
    · have hne : child ≠ h := by
        rintro rfl
        rw [hdead] at he
        cases he
      simpa [Fault.isUnderflowAt, hne] using hsum
    · by_cases hh : child = h
      · simp only [hh, beq_self_eq_true, ↓reduceIte] at hsum
        simp only [Fault.isUnderflowAt, hh, decide_true, ↓reduceIte]
        omega
      · simpa [Fault.isUnderflowAt, hh] using hsum
  dead h hh := by
    rw [underflows_note hp]
    rcases of_edgeFate_eq_defective hf with ⟨-, rfl⟩ | ⟨e, he, -, rfl⟩
    · exact hg.dead h hh
    · obtain ⟨e₀, he₀, -⟩ := hg.entry child e he
      have hne : child ≠ h := by
        rintro rfl
        exact hh (contains_iff.2 ⟨e₀, he₀⟩)
      simpa [Fault.isUnderflowAt, hne] using hg.dead h hh
  recorded := by
    rw [defects_note_of_report _ _ _ hp, Array.toList_push]
    exact hg.recorded.trans (List.prefix_append _ _)

/-- The edges of a reclaimed node are owed. -/
theorem reclaim (hg : g.Drifts [] G) (he : G.get? h = some e) (kind : Kind) :
    g.Drifts e.node.children (G.reclaim h kind) where
  entry l e' he' := by
    rw [underflows_congr (G.defects_reclaim h kind)]
    rw [get?_reclaim] at he'
    split at he'
    · cases he'
    · obtain ⟨e₀, he₀, hsum⟩ := hg.entry l e' he'
      have hdegree := inDegree_reclaim he kind l
      rw [List.count_nil] at hsum
      exact ⟨e₀, he₀, by omega⟩
  dead l hl := (underflows_congr (G.defects_reclaim h kind) l).trans (hg.dead l hl)
  recorded := (G.defects_reclaim h kind).symm ▸ hg.recorded

end Drifts

end Graph

/-- Every move keeps the drift, if the edges that the cascade has yet to drop are owed. -/
theorem Cascade.drifts_of_move {g : Graph} {c d : Cascade}
    (hc : g.Drifts (c.edges.map Prod.snd) c.graph) (hm : Move c d) :
    g.Drifts (d.edges.map Prod.snd) d.graph := by
  cases hm with
  | lower he hcount => exact hc.lower he hcount
  | defect hf hp => exact hc.defect hf hp
  | @reclaim G h pending report e he =>
      rw [List.map_map]
      exact (List.map_id e.node.children).symm ▸ hc.reclaim he e.node.kind
  | skip _ => exact hc

end SharedExpr
