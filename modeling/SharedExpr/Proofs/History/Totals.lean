import SharedExpr.Proofs.Graph.Counted
import SharedExpr.Proofs.History.Soundness

/-!
# Totals are conserved in every history

The totals of a graph and what it holds move together, also when references were added and taken
away without regard for edges, and also in a release that is abandoned. What makes the second
equation work is that no node that is reclaimed takes a count with it: a node waits to be reclaimed
only when its count is zero, and a count of zero stays.

* `Graph.Reconciled` — nodes constructed are released or live; references added are taken away or
  stored in a count.
* `Graph.Reclaims` — the moments of a release at which a node is reclaimed. Every node that a
  release takes away had such a moment (`Graph.exists_reclaims`), and its count was zero then
  (`Graph.Reclaims.count?_eq`).
* `Cascade.Accounts.counted_move` — a move of a cascade keeps references taken away and stored
  counts together.
* `History.totals_conserved` — **every graph is reconciled at every point of every run**, as long as
  no count comes to its limit.
-/

namespace SharedExpr

/-! ### Cascades -/

namespace Cascade

variable {g : Graph} {r h : Handle} {c d : Cascade}

/-- A reference that a move takes away goes from a count, and a node that a move reclaims has none
left. -/
theorem Accounts.counted_move (hc : Accounts g r c)
    (hr : ∀ e, g.get? r = some e → e.count.value = 0) (hm : Move c d) :
    d.graph.totals.decrements + d.graph.counted =
      c.graph.totals.decrements + c.graph.counted := by
  cases hm with
  | lower he hcount =>
      have := Graph.counted_lowerTo he hcount
      simp only [Graph.totals_lowerTo]
      omega
  | defect hf hp => rw [Graph.totals_note, Graph.counted_note]
  | reclaim he =>
      have hzero := hc.count_pending hr List.mem_cons_self he
      have := Graph.counted_reclaim he
      simp only [Graph.totals_reclaim]
      rw [← this, hzero, Nat.add_zero]
  | skip he => rfl

/-- The cascade is about to reclaim a live node. -/
def Takes (c : Cascade) (h : Handle) : Prop :=
  c.edges = [] ∧ c.pending.head? = some h ∧ c.graph.contains h

/-- Every node of the report was reclaimed at some moment. -/
theorem exists_takes {start : Cascade} (hm : Moves start c) (hstart : h ∉ start.report)
    (hh : h ∈ c.report) : ∃ d, Moves start d ∧ d.Takes h := by
  induction hm with
  | refl => exact absurd hh hstart
  | @tail c d hmoves hmove ih =>
      cases hmove with
      | lower he hcount => exact ih hh
      | defect hf hp => exact ih hh
      | @reclaim G l pending report e he =>
          rcases Array.mem_push.1 hh with hh | rfl
          · exact ih hh
          · exact ⟨_, hmoves, rfl, rfl, Graph.contains_iff.2 ⟨e, he⟩⟩
      | skip he => exact ih hh

end Cascade

namespace Graph

variable {g k : Graph} {h : Handle} {r : Root} {node : Node}

/-! ### The moments at which nodes are reclaimed -/

/-- During the release of the root `r`, when the graph has come to be `k`, a node is reclaimed. -/
def Reclaims (g : Graph) (r : Root) (k : Graph) (h : Handle) : Prop :=
  ∃ e c, g.get? r.node = some e ∧ e.rooted = true ∧ e.count.value = 0 ∧
    Cascade.Moves (.start (g.unroot r.node) r.node) c ∧ c.graph = k ∧ c.Takes h

/-- A node is reclaimed only when its count is zero. -/
theorem Reclaims.count?_eq (hk : g.Reclaims r k h) : k.count? h = some 0 := by
  obtain ⟨e, c, he, -, hzero, hm, rfl, -, hpending, hlive⟩ := hk
  obtain ⟨e', he'⟩ := contains_iff.1 hlive
  have hc := accounts_of_moves hm he hzero
  have := hc.count_pending (count_unroot_of_zero he hzero) (List.mem_of_mem_head? hpending) he'
  simp [count?, he', this]

/-- What a release takes away was reclaimed at some moment, also if the release was abandoned. -/
theorem exists_reclaims (hlive : g.contains h) (hgone : ¬ (g.release r).2.contains h) :
    ∃ k, g.Reclaims r k h := by
  have hlive' : (g.unroot r.node).contains h :=
    (contains_congr (g.node?_setRooted r.node h false)).trans hlive
  have hreport : ∀ {e c}, g.get? r.node = some e → e.rooted = true → e.count.value = 0 →
      Cascade.Moves (.start (g.unroot r.node) r.node) c → ¬ c.graph.contains h →
      ∃ k, g.Reclaims r k h := by
    intro e c he hroot hzero hm hdead
    have hmem : h ∈ c.report := by
      by_contra hout
      obtain ⟨e₀, he₀⟩ := contains_iff.1 hlive'
      apply hdead
      rw [contains, (accounts_of_moves hm he hzero).get? h, if_neg hout, he₀]
      rfl
    obtain ⟨d, hd, htakes⟩ := Cascade.exists_takes hm (by simp [Cascade.start]) hmem
    exact ⟨d.graph, e, d, he, hroot, hzero, hd, rfl, htakes⟩
  have hrel := g.release_released r
  generalize g.release r = result at hrel hgone
  cases hrel with
  | refused hr => exact absurd hlive hgone
  | unrooted he hroot hpos => exact absurd hlive' hgone
  | reclaimed he hroot hzero hm hedges hpending => exact hreport he hroot hzero hm hgone
  | @aborted e c parent child edges fault he hroot hzero hm hpolicy hedges hf =>
      apply hreport he hroot hzero hm
      rwa [contains_congr (c.graph.node?_note child fault h)] at hgone

/-! ### One operation -/

/-- The totals agree with the nodes that there are and with the counts that are stored for them. -/
structure Reconciled (g : Graph) : Prop where
  /-- What was constructed was released or is live. -/
  constructed : g.totals.constructed = g.totals.released + g.size
  /-- A reference that was added was taken away or is stored in a count. -/
  increments : g.totals.increments = g.totals.decrements + g.counted

/-- Whether totals and counts agree is a matter of totals, size and counts. -/
theorem Reconciled.congr (hg : g.Reconciled) (htotals : k.totals = g.totals)
    (hsize : k.size = g.size) (hcounted : k.counted = g.counted) : k.Reconciled where
  constructed := by rw [htotals, hsize, hg.constructed]
  increments := by rw [htotals, hcounted, hg.increments]

/-- A construction keeps totals and counts in agreement, if there is room to count. -/
theorem Reconciled.build (hg : g.Reconciled)
    (hroom : ∀ h e, (g.build node).2.get? h = some e → e.count.value < Count.max) :
    (g.build node).2.Reconciled := by
  have hb := g.build_built node
  generalize g.build node = result at hb hroom
  cases hb with
  | refused hm hdead => exact hg
  | done hlive =>
      have htotals := totals_built hlive
      have hsize : (node.children.foldl raise (g.add node).2).size = g.size + 1 := by
        rw [foldl_raise_eq Graph.size size_raise, size_add]
      refine ⟨?_, ?_⟩
      · have := hg.constructed
        rw [htotals, hsize]
        simp only
        omega
      · have := hg.increments
        rw [htotals, counted_built hlive hroom]
        simp only
        omega

/-- A direct reference keeps totals and counts in agreement, if there is room to count. -/
theorem Reconciled.increment (hg : g.Reconciled)
    (hroom : ∀ l e, (g.increment h).2.get? l = some e → e.count.value < Count.max) :
    (g.increment h).2.Reconciled := by
  rcases g.increment_cases h with ⟨fault, hinc⟩ | ⟨hlive, n, hinc⟩
  · rw [hinc]
    exact hg
  · rw [hinc] at hroom ⊢
    -- one reference is a list of one
    have hlive' : ∀ l ∈ [h], g.contains l := by simpa using hlive
    have htotals := totals_foldl_raise [h] g hlive'
    have hcounted := counted_foldl_raise [h] g hlive' hroom
    refine ⟨?_, ?_⟩
    · have := hg.constructed
      simp only [List.foldl_cons, List.foldl_nil] at htotals
      rw [htotals, size_raise]
      exact this
    · have := hg.increments
      simp only [List.foldl_cons, List.foldl_nil, List.length_singleton] at htotals hcounted
      rw [htotals, hcounted]
      simp only
      omega

/-- A reference taken directly keeps totals and counts in agreement. -/
theorem Reconciled.decrement (hg : g.Reconciled) (h : Handle) :
    (g.decrement h).2.Reconciled := by
  unfold Graph.decrement
  split
  · exact hg
  · rename_i e he
    split
    · rename_i count hcount
      refine ⟨?_, ?_⟩
      · have := hg.constructed
        rw [totals_lowerTo, size_lowerTo]
        exact this
      · have := hg.increments
        have := counted_lowerTo he hcount
        rw [totals_lowerTo]
        simp only
        omega
    · exact hg.congr (g.totals_note h _) (g.size_note h _) (g.counted_note h _)

/-- A mark keeps totals and counts in agreement. -/
theorem Reconciled.setRooted (hg : g.Reconciled) (h : Handle) (rooted : Bool) :
    (g.setRooted h rooted).Reconciled :=
  hg.congr (g.totals_setRooted h rooted) (g.size_setRooted h rooted)
    (g.counted_setRooted h rooted)

/-- The equations hold throughout the cascade of a release. -/
theorem Reconciled.of_moves {e : Entry} {c : Cascade} (hg : (g.unroot r.node).Reconciled)
    (he : g.get? r.node = some e) (hzero : e.count.value = 0)
    (hm : Cascade.Moves (.start (g.unroot r.node) r.node) c) : c.graph.Reconciled := by
  have hr := count_unroot_of_zero he hzero
  have hcons := conserves_of_moves hm
  have hcounted : Cascade.Accounts (g.unroot r.node) r.node c ∧
      c.graph.totals.decrements + c.graph.counted =
        (g.unroot r.node).totals.decrements + (g.unroot r.node).counted := by
    induction hm with
    | refl => exact ⟨Cascade.accounts_start (contains_unroot he), rfl⟩
    | tail hmoves hmove ih =>
        obtain ⟨hc, heq⟩ := ih (conserves_of_moves hmoves)
        exact ⟨hc.move hr hmove, (hc.counted_move hr hmove).trans heq⟩
  refine ⟨?_, ?_⟩
  · have := hg.constructed
    have := hcons.constructed
    have := hcons.released
    omega
  · have := hg.increments
    have := hcons.increments
    omega

/-- A release keeps the equations wherever it stops. -/
theorem Reconciled.release (hg : g.Reconciled) (r : Root) : (g.release r).2.Reconciled := by
  have hun : (g.unroot r.node).Reconciled := hg.setRooted r.node false
  have hrel := g.release_released r
  generalize g.release r = result at hrel
  cases hrel with
  | refused hr => exact hg
  | unrooted he hroot hpos => exact hun.congr rfl rfl rfl
  | reclaimed he hroot hzero hm hedges hpending =>
      exact (hun.of_moves he hzero hm).congr rfl rfl rfl
  | @aborted e c parent child edges fault he hroot hzero hm hpolicy hedges hf =>
      exact (hun.of_moves he hzero hm).congr (c.graph.totals_note child fault)
        (c.graph.size_note child fault) (c.graph.counted_note child fault)

end Graph

/-! ### Every point of a run -/

namespace History

variable {H : History} {c : Command}

/-- Every command keeps totals and counts in agreement, if there is room to count. -/
theorem reconciled_andThen (hg : H.graph.Reconciled)
    (hroom : ∀ h e, (H.andThen c).graph.get? h = some e → e.count.value < Count.max) :
    (H.andThen c).graph.Reconciled := by
  rw [graph_andThen] at hroom ⊢
  induction c using Command.byKind with
  | build c node hnode =>
      rw [Graph.perform_of_node? hnode] at hroom ⊢
      exact hg.build hroom
  | increment l => exact hg.increment hroom
  | decrement l => exact hg.decrement l
  | root l =>
      show (H.graph.root l).2.Reconciled
      rcases H.graph.root_cases l with ⟨fault, hroot⟩ | ⟨-, -, hroot⟩
      · rw [hroot]
        exact hg
      · rw [hroot]
        exact (hg.setRooted l true).congr rfl rfl rfl
  | release r => exact hg.release r
  | takeDefects => exact hg.congr rfl rfl rfl

/-- Totals and counts agree at every point, if there was always room to count. -/
theorem reconciled (H : History) (hsat : H.NeverSaturated) : H.graph.Reconciled := by
  induction H using History.induction with
  | opened id settings => exact ⟨rfl, rfl⟩
  | andThen H c ih =>
      exact reconciled_andThen (ih (hsat.of_mem_past mem_past_andThen))
        fun _ _ => hsat.lt (self_mem_past _)

/-- **Totals are conserved.** At every point of a run in which no count comes to its limit, whatever
was counted directly and whichever operations were refused or abandoned: a node that was constructed
was released or is live, and a reference that was added was taken away or is stored in the count of
a live node. A release takes nodes away one at a time, and each of them when its count is zero. -/
theorem totals_conserved (H : History) (hsat : H.NeverSaturated) :
    ∀ K ∈ H.past,
      K.graph.totals.constructed = K.graph.totals.released + K.graph.size ∧
      K.graph.totals.increments = K.graph.totals.decrements +
        (K.graph.entries.map fun p => p.2.count.value).sum ∧
      ∀ r h,
        (K.graph.contains h → ¬ (K.graph.release r).2.contains h → ∃ k, K.graph.Reclaims r k h) ∧
        ∀ k, K.graph.Reclaims r k h → k.count? h = some 0 := by
  intro K hK
  have hg := K.reconciled (hsat.of_mem_past hK)
  exact ⟨hg.constructed, hg.increments, fun r h => ⟨Graph.exists_reclaims, fun k => (·.count?_eq)⟩⟩

/-- A number that is added to itself, and from which a reference was taken that the sum accounts
for; the policy is to abort, and the sum is held by a root. -/
def depleted : History where
  id := ⟨1⟩
  settings := ⟨.discarding, .abort⟩
  commands := [.intLiteral 7, .arithmetic .add [.ofSlot 1 0, .ofSlot 1 0], .root (.ofSlot 1 1),
    .decrement (.ofSlot 1 0)]

/-- The release of the sum is abandoned at its second edge, when the sum is gone and the number has
no reference left but is still there. -/
theorem depleted_totals :
    (depleted.andThen (.release ⟨.ofSlot 1 1⟩)).NeverSaturated ∧
      (depleted.graph.release ⟨.ofSlot 1 1⟩).1 = .aborted (.underflow (.ofSlot 1 0) 0) ∧
      (depleted.andThen (.release ⟨.ofSlot 1 1⟩)).graph.size = 1 ∧
      (depleted.andThen (.release ⟨.ofSlot 1 1⟩)).graph.totals.constructed =
        (depleted.andThen (.release ⟨.ofSlot 1 1⟩)).graph.totals.released + 1 ∧
      (depleted.andThen (.release ⟨.ofSlot 1 1⟩)).graph.totals.increments =
        (depleted.andThen (.release ⟨.ofSlot 1 1⟩)).graph.totals.decrements := by
  have hrun : ((Cascade.start (depleted.graph.unroot (.ofSlot 1 1)) (.ofSlot 1 1)).runWithin
      7).map (fun result => (result.1, result.2.entries, result.2.size)) =
        some (.aborted (.underflow (.ofSlot 1 0) 0),
          [(.ofSlot 1 0, ⟨.intLiteral 7, .zero, false⟩)], 1) := by decide
  obtain ⟨⟨outcome, G⟩, hG, heq⟩ := Option.map_eq_some_iff.1 hrun
  obtain ⟨rfl, heq⟩ := Prod.mk.inj heq
  obtain ⟨hentries, hsize⟩ := Prod.mk.inj heq
  have hsum : depleted.graph.get? (.ofSlot 1 1) =
      some ⟨.arithmetic .add [.ofSlot 1 0, .ofSlot 1 0], .zero, true⟩ := by decide
  have hrel := Graph.release_of_runWithin_aborted (r := ⟨.ofSlot 1 1⟩) hsum rfl rfl hG
  have hafter : (depleted.andThen (.release ⟨.ofSlot 1 1⟩)).graph = G := by
    rw [graph_andThen, Graph.perform, hrel]
    rfl
  have hbefore : depleted.NeverSaturated := by decide
  have hsat : (depleted.andThen (.release ⟨.ofSlot 1 1⟩)).NeverSaturated := by
    apply hbefore.andThen
    rw [hafter, hentries]
    decide
  obtain ⟨hconstructed, hincrements, -⟩ :=
    totals_conserved (depleted.andThen (.release ⟨.ofSlot 1 1⟩)) hsat _ (self_mem_past _)
  rw [hafter] at hconstructed hincrements ⊢
  rw [hsize] at hconstructed
  rw [hentries] at hincrements
  exact ⟨hsat, congrArg Prod.fst hrel, hsize, hconstructed, hincrements⟩

end History

end SharedExpr
