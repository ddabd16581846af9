import SharedExpr.Proofs.Cascade.Unwinding
import SharedExpr.Proofs.History.Drift

/-!
# What becomes of each edge in a release

Under the reporting policy a release is never abandoned, so all edges of all nodes that it reclaims
are dropped. Each is accounted for once: by a reference that its child loses, or by a defect.

* `Graph.exists_unwinds_of_release` — a release that is carried out unwinds the graph, node by node
  in the order of its report.
* `Graph.release_unwinds` — **every edge of every reclaimed node is accounted for exactly once**.
-/

namespace SharedExpr

namespace Graph

variable {g : Graph} {r : Root} {report : Array Handle}

/-- Taking a root away changes no edge. -/
theorem edgesFrom_unroot (g : Graph) (h : Handle) : (g.unroot h).edgesFrom = g.edgesFrom := by
  funext p
  rw [edgesFrom, edgesFrom, childrenOf_unroot]

/-- A release that is carried out unwinds the graph. What it says at the end is no part of that. -/
theorem exists_unwinds_of_release (hr : (g.release r).1 = .done report) :
    ∃ fates G, (g.unroot r.node).Unwinds report.toList [] fates G ∧
      (∀ l, (g.release r).2.get? l = G.get? l) ∧ (g.release r).2.totals = G.totals ∧
      (g.release r).2.defects = G.defects := by
  have hrel := g.release_released r
  generalize g.release r = result at hrel hr
  cases hrel with
  | refused => cases hr
  | unrooted =>
      cases hr
      exact ⟨[], _, .refl, fun l => rfl, rfl, rfl⟩
  | @reclaimed e c he hroot hzero hm hedges hpending =>
      cases hr
      obtain ⟨fates, hunwinds⟩ : ∃ fates,
          (g.unroot r.node).Unwinds c.report.toList c.edges fates c.graph :=
        hm.keep (P := fun c => ∃ fates,
          (g.unroot r.node).Unwinds c.report.toList c.edges fates c.graph)
          Cascade.unwinds_of_move ⟨[], .refl⟩
      rw [hedges] at hunwinds
      exact ⟨fates, c.graph, hunwinds, fun l => rfl, rfl, rfl⟩
  | aborted => cases hr

/-- **Every edge of every reclaimed node is accounted for exactly once**, in every graph under the
reporting policy, whatever its counts are. A release that is carried out releases the nodes of its
report, and the references that it takes away and the defects that it records are as many as these
nodes have child occurrences. They come in the order of the report and of the children of each node:
for each occurrence the child loses a reference, or it is live and has none at this moment, or it is
not live at this moment. At no moment can there be two of these, and what is recorded says which it
was. -/
theorem release_unwinds (hpolicy : g.policy = .report) (hr : (g.release r).1 = .done report) :
    (g.release r).2.totals.released = g.totals.released + report.size ∧
    (g.release r).2.totals.decrements + (g.release r).2.defects.size =
      g.totals.decrements + g.defects.size +
        (report.toList.map fun p => (g.childrenOf p).length).sum ∧
    (∀ (k : Graph) (p c : Handle), ∃! fate, ∃ K, k.Drops p c fate K) ∧
    ∃ fates G, (g.unroot r.node).Unwinds report.toList [] fates G ∧
      (∀ l, (g.release r).2.get? l = G.get? l) ∧
      fates.map Prod.fst = report.toList.flatMap g.edgesFrom ∧
      (g.release r).2.totals.decrements =
        g.totals.decrements + fates.countP (fun f => f.2.isNone) ∧
      (g.release r).2.defects.toList = g.defects.toList ++ fates.filterMap Prod.snd := by
  obtain ⟨fates, G, hunwinds, hget, htotals, hdefects⟩ := exists_unwinds_of_release hr
  have hpolicy' : (g.unroot r.node).policy = .report :=
    (g.policy_setRooted r.node false).trans hpolicy
  have hedges : fates.map Prod.fst = report.toList.flatMap g.edgesFrom := by
    rw [← List.append_nil (fates.map _), hunwinds.edges_eq, edgesFrom_unroot]
  have hcounted : G.totals =
      { g.totals with
        released := g.totals.released + report.toList.length
        decrements := g.totals.decrements + fates.countP fun f => f.2.isNone } := by
    rw [hunwinds.totals_eq, unroot, totals_setRooted]
  have hrecorded : G.defects.toList = g.defects.toList ++ fates.filterMap Prod.snd := by
    rw [hunwinds.defects_eq hpolicy', unroot, defects_setRooted]
  have hlength : fates.length = (report.toList.map fun p => (g.childrenOf p).length).sum := by
    rw [← length_flatMap_edgesFrom, ← hedges, List.length_map]
  refine ⟨?_, ?_, existsUnique_drops, fates, G, hunwinds, hget, hedges, ?_, ?_⟩
  · rw [htotals, hcounted, Array.length_toList]
  · have hsize : G.defects.size = g.defects.size + (fates.filterMap Prod.snd).length := by
      rw [← Array.length_toList, hrecorded, List.length_append, Array.length_toList]
    have hsplit := countP_isNone_add_length fates
    rw [htotals, hdefects, hcounted, hsize, ← hlength, ← hsplit]
    dsimp only
    omega
  · rw [htotals, hcounted]
  · rw [hdefects, hrecorded]

/-- A sum goes whose operand has one reference for two occurrences: one reference is taken away, and
one defect is recorded. -/
theorem strained_unwinds :
    (History.strained.graph.release ⟨.ofSlot 1 1⟩).2.totals.decrements = 2 ∧
    (History.strained.graph.release ⟨.ofSlot 1 1⟩).2.totals.released = 1 ∧
    ∃ fates : List ((Handle × Handle) × Option Fault),
      fates.map Prod.fst = [(.ofSlot 1 1, .ofSlot 1 0), (.ofSlot 1 1, .ofSlot 1 0)] ∧
      fates.filterMap Prod.snd = [.underflow (.ofSlot 1 0) 0] := by
  have hrun : ((Cascade.start (History.strained.graph.unroot (.ofSlot 1 1))
      (.ofSlot 1 1)).runWithin 7).map (fun result => (result.1, result.2.defects)) =
        some (.done #[.ofSlot 1 1], #[.underflow (.ofSlot 1 0) 0]) := by decide
  obtain ⟨⟨outcome, G⟩, hG, heq⟩ := Option.map_eq_some_iff.1 hrun
  obtain ⟨rfl, hdefects⟩ := Prod.mk.inj heq
  have hsum : History.strained.graph.get? (.ofSlot 1 1) =
      some ⟨.arithmetic .add [.ofSlot 1 0, .ofSlot 1 0], .zero, true⟩ := by decide
  have hrel := release_of_runWithin (r := ⟨.ofSlot 1 1⟩) hsum rfl rfl hG
  have hrecorded : (History.strained.graph.release ⟨.ofSlot 1 1⟩).2.defects =
      #[.underflow (.ofSlot 1 0) 0] := by
    rw [hrel]
    exact hdefects
  have hbefore : History.strained.graph.totals.decrements = 1 ∧
      History.strained.graph.totals.released = 0 ∧ History.strained.graph.defects = #[] ∧
      History.strained.graph.childrenOf (.ofSlot 1 1) = [.ofSlot 1 0, .ofSlot 1 0] := by decide
  obtain ⟨hdec, hfree, hnone, hchildren⟩ := hbefore
  have hdone : (History.strained.graph.release ⟨.ofSlot 1 1⟩).1 = .done #[.ofSlot 1 1] := by
    rw [hrel]
  obtain ⟨hreleased, hsum, -, fates, G', -, -, hedges, -, hfates⟩ := release_unwinds rfl hdone
  rw [hrecorded, hdec, hnone] at hsum
  rw [hrecorded, hnone] at hfates
  refine ⟨?_, ?_, fates, ?_, hfates.symm⟩
  · have hcount := hsum
    simp [hchildren] at hcount
    omega
  · rw [hreleased, hfree]
    rfl
  · rw [hedges]
    simp [edgesFrom, hchildren]

end Graph

end SharedExpr
