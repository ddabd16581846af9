import Mathlib.Algebra.BigOperators.Group.List.Basic
import Mathlib.Algebra.GroupWithZero.Nat
import SharedExpr.Proofs.Cascade.Totals

/-!
# What becomes of each edge in a cascade

A cascade keeps a list of edges and a stack of nodes, and puts nodes on the stack while it drops
edges. Seen from its report it is simpler: one node after the other is reclaimed, and the edges of
each are dropped, in order, before the next one goes. Each edge takes a reference from the child; or
the child has none, or the child is gone, and this is recorded. Whether the counts are right plays
no part in it.

* `Graph.Drops` — what becomes of an edge at the moment at which it is dropped.
* `Graph.Unwinds` — nodes were reclaimed in this order, their edges fared so, and these are owed.
* `Graph.Unwinds.edges_eq` — **each edge of each reclaimed node is dropped once**, or still owed;
  `Graph.Unwinds.totals_eq` and `Graph.Unwinds.defects_eq` — what is counted and what is recorded.
* `Cascade.unwinds_of_move` — every move of a cascade unwinds the graph in which it began.
-/

namespace SharedExpr

namespace Graph

variable {g G K : Graph} {h p c : Handle} {e : Entry} {fate : Option Fault}
  {reclaimed : List Handle} {owed : List (Handle × Handle)}
  {fates : List ((Handle × Handle) × Option Fault)}

/-- The edges from a node, in source order. -/
def edgesFrom (g : Graph) (p : Handle) : List (Handle × Handle) :=
  (g.childrenOf p).map fun c => (p, c)

/-! ### One edge -/

/-- What becomes of the edge from a reclaimed node `p` to `c` when it is dropped in the graph `g`:
the defect that is recorded, if one is, and the graph after it. -/
inductive Drops (g : Graph) (p c : Handle) : Option Fault → Graph → Prop
  /-- The child has one reference less. -/
  | lowered {e : Entry} {count : Count} (he : g.get? c = some e)
      (hcount : e.count.decrement? = some count) : Drops g p c none (g.lowerTo c count)
  /-- The child is live, and there is no reference to take away. -/
  | underflow {e : Entry} (he : g.get? c = some e) (hzero : e.count.value = 0) :
      Drops g p c (some (.underflow c 0)) (g.note c (.underflow c 0))
  /-- The child is gone. -/
  | dangling (he : g.get? c = none) :
      Drops g p c (some (.danglingEdge p c)) (g.note c (.danglingEdge p c))

/-- No other defect is found at the end of an edge. -/
theorem drops_of_edgeFate {fault : Fault} (hf : g.edgeFate p c = .defective fault) :
    g.Drops p c (some fault) (g.note c fault) := by
  rcases of_edgeFate_eq_defective hf with ⟨he, rfl⟩ | ⟨e, he, hzero, rfl⟩
  · exact .dangling he
  · exact .underflow he hzero

/-- An edge has one fate. -/
theorem Drops.unique {fate' : Option Fault} (hd : g.Drops p c fate G)
    (hd' : g.Drops p c fate' K) : fate = fate' ∧ G = K := by
  cases hd with
  | lowered he hcount =>
      cases hd' with
      | lowered he' hcount' =>
          obtain rfl := Option.some_inj.1 (he.symm.trans he')
          obtain rfl := Option.some_inj.1 (hcount.symm.trans hcount')
          exact ⟨rfl, rfl⟩
      | underflow he' hzero =>
          obtain rfl := Option.some_inj.1 (he.symm.trans he')
          rw [Count.decrement?_eq_none_iff.2 hzero] at hcount
          cases hcount
      | dangling he' => cases he.symm.trans he'
  | underflow he hzero =>
      cases hd' with
      | lowered he' hcount =>
          obtain rfl := Option.some_inj.1 (he.symm.trans he')
          rw [Count.decrement?_eq_none_iff.2 hzero] at hcount
          cases hcount
      | underflow => exact ⟨rfl, rfl⟩
      | dangling he' => cases he.symm.trans he'
  | dangling he =>
      cases hd' with
      | lowered he' | underflow he' => cases he.symm.trans he'
      | dangling => exact ⟨rfl, rfl⟩

/-- At every moment an edge has exactly one fate. -/
theorem existsUnique_drops (g : Graph) (p c : Handle) : ∃! fate, ∃ G, g.Drops p c fate G := by
  obtain ⟨fate, hfate⟩ : ∃ fate, ∃ G, g.Drops p c fate G := by
    cases hf : g.edgeFate p c with
    | lowered count rooted =>
        obtain ⟨e, he, hcount, -⟩ := edgeFate_eq_lowered_iff.1 hf
        exact ⟨none, _, .lowered he hcount⟩
    | defective fault => exact ⟨some fault, _, drops_of_edgeFate hf⟩
  refine ⟨fate, hfate, ?_⟩
  rintro fate' ⟨G', hd'⟩
  obtain ⟨G, hd⟩ := hfate
  exact (hd'.unique hd).1

/-- Dropping an edge changes no node. -/
theorem Drops.node?_eq (hd : g.Drops p c fate G) (l : Handle) : G.node? l = g.node? l := by
  cases hd with
  | lowered => exact g.node?_lowerTo c _ l
  | underflow | dangling => exact g.node?_note c _ l

/-- Dropping an edge leaves the policy as it is. -/
theorem Drops.policy_eq (hd : g.Drops p c fate G) : G.policy = g.policy := by
  cases hd with
  | lowered => exact g.policy_lowerTo c _
  | underflow | dangling => exact g.policy_note c _

/-- A reference taken away is counted. -/
theorem Drops.totals_eq (hd : g.Drops p c fate G) : G.totals =
    { g.totals with decrements := g.totals.decrements + if fate.isNone then 1 else 0 } := by
  cases hd with
  | lowered => exact g.totals_lowerTo c _
  | underflow | dangling => exact g.totals_note c _

/-- A defect is recorded. -/
theorem Drops.defects_eq (hd : g.Drops p c fate G) (hpolicy : g.policy = .report) :
    G.defects.toList = g.defects.toList ++ fate.toList := by
  cases hd with
  | lowered => simp
  | underflow | dangling =>
      rw [defects_note_of_report _ _ _ hpolicy, Array.toList_push]
      rfl

/-! ### One node after the other -/

/-- From the graph `g` one gets to `G` by reclaiming the nodes in this order and dropping the edges
of each one, in order, before the next one goes. Of the edges that were dropped the list `fates`
says what became of them; the edges `owed`, all from the last node, are still to be dropped. -/
inductive Unwinds (g : Graph) : List Handle → List (Handle × Handle) →
    List ((Handle × Handle) × Option Fault) → Graph → Prop
  /-- Nothing was reclaimed yet. -/
  | refl : Unwinds g [] [] [] g
  /-- No edge is owed, and a live node is reclaimed. -/
  | reclaim {ps : List Handle} {fs : List ((Handle × Handle) × Option Fault)} {G : Graph}
      {h : Handle} {e : Entry} (hg : Unwinds g ps [] fs G) (he : G.get? h = some e) :
      Unwinds g (ps ++ [h]) (e.node.children.map fun c => (h, c)) fs (G.reclaim h e.node.kind)
  /-- The next edge is dropped. -/
  | drop {ps : List Handle} {p c : Handle} {es : List (Handle × Handle)}
      {fs : List ((Handle × Handle) × Option Fault)} {G K : Graph} {fate : Option Fault}
      (hg : Unwinds g ps ((p, c) :: es) fs G) (hd : G.Drops p c fate K) :
      Unwinds g ps es (fs ++ [((p, c), fate)]) K

/-- A node that is live still was live, with the same children. -/
theorem Unwinds.node?_eq (hg : g.Unwinds reclaimed owed fates G) {n : Node}
    (hn : G.node? h = some n) : g.node? h = some n := by
  induction hg with
  | refl => exact hn
  | reclaim _ _ ih =>
      rw [node?_reclaim] at hn
      split at hn
      · cases hn
      · exact ih hn
  | drop _ hd ih => exact ih (hd.node?_eq h ▸ hn)

/-- **Each edge of each reclaimed node is dropped once**, or still owed, in the order of the nodes
and of their children. -/
theorem Unwinds.edges_eq (hg : g.Unwinds reclaimed owed fates G) :
    fates.map Prod.fst ++ owed = reclaimed.flatMap g.edgesFrom := by
  induction hg with
  | refl => rfl
  | @reclaim reclaimed fates G h e hg he ih =>
      have hn : g.node? h = some e.node := hg.node?_eq (by rw [node?, he]; rfl)
      have hchildren : g.childrenOf h = e.node.children := by rw [childrenOf, hn]; rfl
      rw [List.append_nil] at ih
      rw [List.flatMap_append, List.flatMap_singleton, ih, edgesFrom, hchildren]
  | drop _ _ ih => rw [List.map_append, List.append_assoc, ← ih]; rfl

/-- Unwinding leaves the policy as it is. -/
theorem Unwinds.policy_eq (hg : g.Unwinds reclaimed owed fates G) : G.policy = g.policy := by
  induction hg with
  | refl => rfl
  | @reclaim _ _ G h e _ _ ih => exact (G.policy_reclaim h e.node.kind).trans ih
  | drop _ hd ih => exact hd.policy_eq.trans ih

/-- The nodes that were reclaimed are counted, and the references that were taken away. -/
theorem Unwinds.totals_eq (hg : g.Unwinds reclaimed owed fates G) : G.totals =
    { g.totals with
      released := g.totals.released + reclaimed.length
      decrements := g.totals.decrements + fates.countP fun f => f.2.isNone } := by
  induction hg with
  | refl => rfl
  | @reclaim _ _ G h e _ _ ih =>
      rw [totals_reclaim, ih, List.length_append]
      rfl
  | drop _ hd ih =>
      rw [hd.totals_eq, ih, List.countP_append, List.countP_singleton]
      simp only [Nat.add_assoc]

/-- Under the reporting policy all others are recorded, in order. -/
theorem Unwinds.defects_eq (hg : g.Unwinds reclaimed owed fates G) (hpolicy : g.policy = .report) :
    G.defects.toList = g.defects.toList ++ fates.filterMap Prod.snd := by
  induction hg with
  | refl => rw [List.filterMap_nil, List.append_nil]
  | @reclaim _ _ G h e _ _ ih => rw [defects_reclaim, ih]
  | @drop _ p c _ _ _ _ fate hg hd ih =>
      have hone : [((p, c), fate)].filterMap Prod.snd = fate.toList := by cases fate <;> rfl
      rw [hd.defects_eq (hg.policy_eq.trans hpolicy), ih, List.filterMap_append, hone,
        List.append_assoc]

/-- An edge that was dropped took a reference away, or a defect was recorded. -/
theorem countP_isNone_add_length (fates : List ((Handle × Handle) × Option Fault)) :
    (fates.countP fun f => f.2.isNone) + (fates.filterMap Prod.snd).length = fates.length := by
  have hsplit := fates.length_eq_countP_add_countP fun f => f.2.isSome
  rw [List.length_filterMap_eq_countP, hsplit, Nat.add_comm]
  simp only [Bool.not_eq_true, Option.isSome_eq_false_iff, Bool.decide_coe]

/-- Nodes have as many edges between them as they have children in all. -/
theorem length_flatMap_edgesFrom (g : Graph) (ps : List Handle) :
    (ps.flatMap g.edgesFrom).length = (ps.map fun p => (g.childrenOf p).length).sum := by
  simp [List.length_flatMap, edgesFrom]

end Graph

/-- Every move unwinds the graph in which the cascade began. -/
theorem Cascade.unwinds_of_move {g : Graph} {c d : Cascade}
    (hc : ∃ fates, g.Unwinds c.report.toList c.edges fates c.graph) (hm : Move c d) :
    ∃ fates, g.Unwinds d.report.toList d.edges fates d.graph := by
  obtain ⟨fates, hc⟩ := hc
  cases hm with
  | lower he hcount => exact ⟨_, hc.drop (.lowered he hcount)⟩
  | defect hf hp => exact ⟨_, hc.drop (Graph.drops_of_edgeFate hf)⟩
  | @reclaim G h pending report e he =>
      refine ⟨fates, ?_⟩
      rw [Array.toList_push]
      exact hc.reclaim he
  | skip _ => exact ⟨fates, hc⟩

end SharedExpr
