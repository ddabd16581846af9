import SharedExpr.Proofs.Graph.Soundness
import SharedExpr.Proofs.Release.Basic

/-!
# Releases over sound counts

A cascade removes a node first and takes the references of its children away one at a time, so the
counts are not sound while it runs. What holds at every moment is the account of
`SharedExpr.Proofs.Cascade.Accounts`: a count still has in it the edges that are yet to be dropped.
Hence no edge to be dropped is ever a defect, and at the end the counts are sound again.

* `Cascade.Accounts.edgeFate_ne_defective` — no edge is a defect.
* `Cascade.Accounts.parent_mem_report` — a node is reclaimed after all of its parents only.
* `Graph.Sound.release` — **a release keeps counts sound, records no defect and is never
  abandoned**.
-/

namespace SharedExpr

namespace Cascade.Accounts

variable {g : Graph} {r h p parent child : Handle} {c : Cascade} {extra : Handle → ℕ}
  {edges : List (Handle × Handle)} {fault : Fault}

/-- No more edges were dropped than the reclaimed nodes had. -/
theorem dropped_le (g : Graph) (c : Cascade) (h : Handle) :
    c.dropped g h ≤ g.occurrences {p | p ∈ c.report} h :=
  Nat.sub_le _ _

/-- A node is not touched until it is reclaimed. -/
theorem node? (hc : Accounts g r c) (p : Handle) :
    c.graph.node? p = if p ∈ c.report then none else g.node? p := by
  rw [Graph.node?, hc.get? p]
  split
  · rfl
  · rw [Option.map_map]
    rfl

/-- The nodes reclaimed have no children any more, and the others have theirs. -/
theorem childrenOf (hc : Accounts g r c) (p : Handle) :
    c.graph.childrenOf p = if p ∈ c.report then [] else g.childrenOf p :=
  Graph.childrenOf_of_node? hc.node? p

section sound

variable (hg : g.Sound extra) (hr : ∀ e, g.get? r = some e → e.count.value = 0)
  (hc : Accounts g r c)
include hg hr hc

/-- Edges that exhaust a node are all the edges to it. -/
theorem inDegree_le_dropped (hh : h ∈ c.report ∨ h ∈ c.pending) : g.inDegree h ≤ c.dropped g h := by
  obtain ⟨e, he⟩ := Graph.contains_iff.1 (hc.live h hh)
  have hcount := hg.count h e he
  rcases hc.exhausted h hh with rfl | ⟨e', he', -, -, hle⟩
  · have := hr e he
    omega
  · obtain rfl : e' = e := Option.some_inj.1 (he'.symm.trans he)
    omega

/-- A node is reclaimed after all of its parents only. -/
theorem parent_mem_report (hp : (p, h) ∈ g.edges) (hh : h ∈ c.report) : p ∈ c.report :=
  Graph.mem_of_inDegree_le_occurrences (S := {p | p ∈ c.report})
    ((inDegree_le_dropped hg hr hc (Or.inl hh)).trans (dropped_le g c h)) hp

/-- No edge that is dropped is a defect. -/
theorem edgeFate_ne_defective (hedges : c.edges = (parent, child) :: edges) :
    c.graph.edgeFate parent child ≠ .defective fault := by
  have hle := hc.edges_le child
  have hone : 0 < (c.edges.map Prod.snd).count child := by
    rw [hedges, List.map_cons, List.count_pos_iff]
    exact List.mem_cons_self
  -- the edge itself is not dropped yet
  have hlt : c.dropped g child < g.inDegree child := by
    have := g.occurrences_le_inDegree {p | p ∈ c.report} child
    unfold dropped
    omega
  have hnot : child ∉ c.report := fun hmem => by
    have := inDegree_le_dropped hg hr hc (Or.inl hmem)
    omega
  obtain ⟨p, -, hp⟩ := Graph.occurrences_pos_iff.1 (hone.trans_le hle)
  obtain ⟨e₀, he₀⟩ := Graph.contains_iff.1 (hg.live p child hp)
  have hcount := hg.count child e₀ he₀
  have hget := hc.get? child
  rw [if_neg hnot, he₀, Option.map_some] at hget
  intro hf
  rcases Graph.of_edgeFate_eq_defective hf with ⟨hdead, -⟩ | ⟨e, he, hzero, -⟩
  · rw [hget] at hdead
    cases hdead
  · rw [hget, Option.some_inj] at he
    subst he
    rw [Count.value_minus] at hzero
    omega

/-- When all edges are dropped the counts are sound again. -/
theorem sound_of_finished (hedges : c.edges = []) : c.graph.Sound extra where
  live p child hpc := by
    rw [Graph.mem_edges_iff, hc.childrenOf p] at hpc
    split at hpc
    · simp at hpc
    · rename_i hp
      have hedge := Graph.mem_edges_iff.2 hpc
      have hchild : child ∉ c.report := fun hm => hp (parent_mem_report hg hr hc hedge hm)
      rw [Graph.contains, hc.get? child, if_neg hchild, Option.isSome_map]
      exact hg.live p child hedge
  count h e he := by
    obtain ⟨hnot, e₀, he₀, rfl⟩ := hc.entry he
    have hsum := Graph.inDegree_add_occurrences (S := {p | p ∈ c.report}) (g := g)
      (fun p hp => (hc.childrenOf p).trans (if_pos hp))
      (fun p hp => (hc.childrenOf p).trans (if_neg hp)) h
    have hcount := hg.count h e₀ he₀
    rw [Count.value_minus, dropped_of_finished hedges]
    omega

end sound

end Cascade.Accounts

namespace Graph

variable {g : Graph} {r : Root} {e : Entry} {c : Cascade} {extra : Handle → ℕ}

/-- Giving up a root leaves counts sound. -/
theorem Sound.unroot (hg : g.Sound extra) (h : Handle) : (g.unroot h).Sound extra :=
  hg.setRooted h false

/-- No defect is recorded during the cascade of a release. -/
theorem Sound.defects_of_moves (hg : g.Sound extra) (he : g.get? r.node = some e)
    (hzero : e.count.value = 0) (hm : Cascade.Moves (.start (g.unroot r.node) r.node) c) :
    c.graph.defects = g.defects := by
  have hstart := count_unroot_of_zero he hzero
  have hkeep := hm.keep
    (P := fun c => Cascade.Accounts (g.unroot r.node) r.node c ∧ c.graph.defects = g.defects)
    (fun {c d} hc hmove => ⟨hc.1.move hstart hmove, ?_⟩)
    ⟨Cascade.accounts_start (contains_unroot he), g.defects_setRooted r.node false⟩
  · exact hkeep.2
  · rw [← hc.2]
    cases hmove with
    | lower _ _ => exact defects_lowerTo ..
    | defect hf _ =>
        exact absurd hf (Cascade.Accounts.edgeFate_ne_defective (hg.unroot _) hstart hc.1 rfl)
    | reclaim _ => exact defects_reclaim ..
    | skip _ => rfl

/-- **A release keeps counts sound, records no defect and is never abandoned.** -/
theorem Sound.release (hg : g.Sound extra) (r : Root) : (g.release r).2.Sound extra ∧
    (g.release r).2.defects = g.defects ∧ ∀ fault, (g.release r).1 ≠ .aborted fault := by
  have hrel := g.release_released r
  generalize g.release r = result at hrel
  cases hrel with
  | refused hr => exact ⟨hg, rfl, fun fault => by simp⟩
  | unrooted he hroot hpos =>
      exact ⟨(hg.unroot r.node).congr (fun _ => rfl) (fun _ => rfl),
        g.defects_setRooted r.node false, fun fault => by simp⟩
  | @reclaimed e c he hroot hzero hm hedges hpending =>
      have hsound := (accounts_of_moves hm he hzero).sound_of_finished (hg.unroot r.node)
        (count_unroot_of_zero he hzero) hedges
      exact ⟨hsound.congr (fun _ => rfl) (fun _ => rfl), hg.defects_of_moves he hzero hm,
        fun fault => by simp⟩
  | aborted he hroot hzero hm hpolicy hedges hf =>
      exact absurd hf ((accounts_of_moves hm he hzero).edgeFate_ne_defective (hg.unroot r.node)
        (count_unroot_of_zero he hzero) hedges)

end Graph

end SharedExpr
