import SharedExpr.Proofs.History.Evolution
import SharedExpr.Proofs.History.Roots

/-!
# A release computes a least fixed point

Under the reporting policy a release reclaims a set of nodes that can be said without mentioning
the cascade, and this is so even if the counts are wrong: it is the least set that holds the
released node and each unrooted node whose references all come from the set.

* `Graph.Without` — a graph without some of its nodes, whose references the others have lost.
* `Graph.exists_release_eq_done` — the release of a node without references, in any graph.
* `Graph.stepsInAnyOrder_agree` — in whatever order the operands and the waiting nodes are taken,
  the same nodes go and the others keep the same counts.
* `Graph.SameUpToOperandOrder` — graphs that differ in the order of operands only.
* `History.release_isLeast` — **the least fixed point, in every graph that has a history**.

Scope: the counts, and hence the set, need not have anything to do with reachability. For graphs
whose counts are right see `SharedExpr.Proofs.Release.Garbage`.
-/

namespace SharedExpr

namespace Graph

variable {g G : Graph} {r : Root} {h : Handle} {e : Entry} {S : Set Handle}

/-! ### The closed sets do not depend on the root that is given up -/

/-- Giving up a root leaves the edges that come from a set as they are. -/
theorem occurrences_unroot (r : Handle) (S : Set Handle) (h : Handle) :
    (g.unroot r).occurrences S h = g.occurrences S h :=
  occurrences_congr (fun p => .of_eq (childrenOf_unroot r p)) S h

/-- Giving up a root makes a difference to its own node only. -/
theorem exhaustedBy_unroot {r : Handle} {n : ℕ} (hne : h ≠ r) :
    (g.unroot r).ExhaustedBy n h ↔ g.ExhaustedBy n h := by
  rw [ExhaustedBy, ExhaustedBy, get?_unroot, if_neg hne]

/-- For a release of `r` it makes no difference whether the root of `r` was given up before. -/
theorem releaseClosed_unroot {r : Handle} :
    (g.unroot r).ReleaseClosed r S ↔ g.ReleaseClosed r S := by
  unfold ReleaseClosed
  refine and_congr_right fun _ => forall_congr' fun h => ?_
  apply imp_congr_right
  intro hne
  rw [occurrences_unroot, exhaustedBy_unroot hne]

/-! ### What is left of a graph -/

/-- `G` is `g` without the listed nodes, and the others have lost the references from them. -/
def Without (g : Graph) (gone : Array Handle) (G : Graph) : Prop :=
  ∀ h, G.get? h = if h ∈ gone then none else
    (g.get? h).map fun e =>
      { e with count := e.count.minus (g.occurrences {p | p ∈ gone} h) }

namespace Without

variable {gone : Array Handle} (hw : g.Without gone G)
include hw

/-- A node is live after a release if it was live before and is not one of those reclaimed. -/
theorem contains_iff : G.contains h ↔ g.contains h ∧ h ∉ gone := by
  rw [contains, hw h, contains]
  by_cases hh : h ∈ gone <;> simp [hh]

/-- A node that stays keeps all but its count. -/
theorem exists_entry (he : g.get? h = some e) (hh : h ∉ gone) : ∃ e', G.get? h = some e' ∧
    e'.node = e.node ∧ e'.rooted = e.rooted ∧
    e'.count.value = e.count.value - g.occurrences {p | p ∈ gone} h := by
  refine ⟨{ e with count := e.count.minus (g.occurrences {p | p ∈ gone} h) }, ?_, rfl, rfl, rfl⟩
  rw [hw h, if_neg hh, he]
  rfl

/-- The nodes that are left are as they were. -/
theorem node? (h : Handle) : G.node? h = if h ∈ gone then none else g.node? h := by
  rw [Graph.node?, hw h]
  split
  · rfl
  · rw [Option.map_map]
    rfl

/-- The roots that are left are as they were. -/
theorem isRooted? (h : Handle) : G.isRooted? h = if h ∈ gone then none else g.isRooted? h := by
  rw [Graph.isRooted?, hw h]
  split
  · rfl
  · rw [Option.map_map]
    rfl

/-- What is left is determined by what goes. -/
theorem get?_eq {gone' : Array Handle} {G' : Graph} (hw' : g.Without gone' G')
    (hset : {h | h ∈ gone} = {h | h ∈ gone'}) (h : Handle) : G.get? h = G'.get? h := by
  have hmem : h ∈ gone ↔ h ∈ gone' := Set.ext_iff.1 hset h
  rw [hw h, hw' h, hset]
  simp only [hmem]

end Without

/-! ### The end of a cascade, said of the graph before the release -/

section ended

variable {c : Cascade} (hc : Cascade.Accounts (g.unroot r.node) r.node c) (hedges : c.edges = [])
  (hpending : c.pending = [])
include hc hedges hpending

/-- A cascade without edges and nodes left has reclaimed the least set that is closed for the
release. -/
theorem isLeast_of_accounts : IsLeast {S | g.ReleaseClosed r.node S} {h | h ∈ c.report} := by
  have hleast := hc.isLeast hedges hpending
  simp only [releaseClosed_unroot] at hleast
  exact hleast

/-- A cascade leaves the graph without the nodes that it reclaimed. -/
theorem without_of_accounts : g.Without c.report c.graph := by
  intro h
  rw [hc.get?_of_finished hedges h]
  split
  · rfl
  · rename_i hh
    have hne : h ≠ r.node := by
      intro heq
      exact hh (heq ▸ (isLeast_of_accounts hc hedges hpending).1.1)
    rw [get?_unroot, if_neg hne, occurrences_unroot]

end ended

/-! ### The release of a node without references -/

section root

variable (hpolicy : g.policy = .report) (he : g.get? r.node = some e) (hroot : e.rooted = true)
  (hzero : e.count.value = 0)
include hpolicy he hroot hzero

/-- **What goes is the least closed set, and what stays loses the references from what goes.** -/
theorem exists_release_eq_done : ∃ report G, g.release r = (.done report, G) ∧
    IsLeast {S | g.ReleaseClosed r.node S} {h | h ∈ report} ∧ g.Without report G := by
  obtain ⟨c, hm, hedges, hpending, hrel⟩ :=
    exists_cascade he hroot hzero (release_fst_ne_aborted hpolicy r)
  have hc := accounts_of_moves hm he hzero
  have hleast := isLeast_of_accounts hc hedges hpending
  exact ⟨_, _, hrel, hleast, without_of_accounts hc hedges hpending⟩

/-- In whatever order the operands and the waiting nodes are taken, the nodes that go are the ones
that a release reports, and the others have the counts that it leaves. -/
theorem stepsInAnyOrder_agree {report : Array Handle} (hrel : g.release r = (.done report, G))
    {d : Cascade} (hd : Cascade.StepsInAnyOrder (.start (g.unroot r.node) r.node) d)
    (hedges : d.edges = []) (hpending : d.pending = []) :
    (∀ h, h ∈ d.report ↔ h ∈ report) ∧ ∀ h, d.graph.get? h = G.get? h := by
  obtain ⟨report', G', hrel', hleast, hw⟩ := exists_release_eq_done hpolicy he hroot hzero
  obtain ⟨rfl, rfl⟩ : report = report' ∧ G = G' := by simpa using hrel.symm.trans hrel'
  have hda := (Cascade.accounts_start (contains_unroot he)).stepsInAnyOrder
    (count_unroot_of_zero he hzero) hd
  have hset : {h | h ∈ d.report} = {h | h ∈ report} :=
    (isLeast_of_accounts hda hedges hpending).unique hleast
  exact ⟨Set.ext_iff.1 hset, (without_of_accounts hda hedges hpending).get?_eq hw hset⟩

end root

/-! ### The order of operands -/

/-- The same nodes are live, with the same counts and marks and, but for their order, with the same
operands. -/
def SameUpToOperandOrder (g G : Graph) : Prop :=
  ∀ h, Option.Rel (fun e e' => e.node.head = e'.node.head ∧
    e.node.children.Perm e'.node.children ∧ e.count = e'.count ∧ e.rooted = e'.rooted)
    (g.get? h) (G.get? h)

/-- Up to their order, operands are the same. -/
theorem SameUpToOperandOrder.childrenOf (hG : g.SameUpToOperandOrder G) (p : Handle) :
    (G.childrenOf p).Perm (g.childrenOf p) := by
  have hp := hG p
  rw [Graph.childrenOf, Graph.childrenOf, node?, node?]
  generalize g.get? p = a at hp
  generalize G.get? p = b at hp
  cases hp with
  | none => exact .refl _
  | some hab => exact hab.2.1.symm

/-- The order of operands makes no difference to whose references are exhausted. -/
theorem SameUpToOperandOrder.exhaustedBy (hG : g.SameUpToOperandOrder G) (n : ℕ) (h : Handle) :
    G.ExhaustedBy n h ↔ g.ExhaustedBy n h := by
  have hh := hG h
  unfold ExhaustedBy
  generalize g.get? h = a at hh
  generalize G.get? h = b at hh
  cases hh with
  | none => rfl
  | some hab => simp [hab.2.2.1, hab.2.2.2]

/-- The order of operands makes no difference to which sets are closed for a release. -/
theorem SameUpToOperandOrder.releaseClosed (hG : g.SameUpToOperandOrder G) (r : Handle) :
    G.ReleaseClosed r S ↔ g.ReleaseClosed r S := by
  unfold ReleaseClosed
  refine and_congr_right fun _ => forall_congr' fun h => imp_congr_right fun _ => ?_
  rw [occurrences_congr hG.childrenOf, hG.exhaustedBy]

/-- Graphs that differ in the order of operands only release a node to the same effect. -/
theorem SameUpToOperandOrder.release (hG : g.SameUpToOperandOrder G) (hgpolicy : g.policy = .report)
    (hGpolicy : G.policy = .report) (he : g.get? r.node = some e) (hroot : e.rooted = true)
    (hzero : e.count.value = 0) :
    ∃ a g' b G', g.release r = (.done a, g') ∧ G.release r = (.done b, G') ∧
      (∀ h, h ∈ a ↔ h ∈ b) ∧ g'.SameUpToOperandOrder G' := by
  obtain ⟨e', he', -, -, hcount, hrooted⟩ : ∃ e', G.get? r.node = some e' ∧
      e.node.head = e'.node.head ∧ e.node.children.Perm e'.node.children ∧
      e.count = e'.count ∧ e.rooted = e'.rooted := by
    have hh := hG r.node
    rw [he] at hh
    generalize G.get? r.node = b at hh
    cases hh with
    | some hab => exact ⟨_, rfl, hab⟩
  obtain ⟨a, g', ha, hleast, hw⟩ := exists_release_eq_done hgpolicy he hroot hzero
  obtain ⟨b, G', hb, hleast', hw'⟩ :=
    exists_release_eq_done hGpolicy he' (hrooted ▸ hroot) (hcount ▸ hzero)
  simp only [hG.releaseClosed] at hleast'
  have hset : {h | h ∈ b} = {h | h ∈ a} := hleast'.unique hleast
  have hmem : ∀ h, h ∈ a ↔ h ∈ b := fun h => (Set.ext_iff.1 hset h).symm
  refine ⟨a, g', b, G', ha, hb, hmem, ?_⟩
  intro h
  rw [hw h, hw' h, hset, occurrences_congr hG.childrenOf]
  simp only [hmem h]
  have hh := hG h
  generalize g.get? h = x at hh
  generalize G.get? h = y at hh
  split
  · exact .none
  · cases hh with
    | none => exact .none
    | some hxy =>
        obtain ⟨hhead, hperm, hcount, hrooted⟩ := hxy
        exact .some ⟨hhead, hperm, by simp only [hcount], hrooted⟩

end Graph

/-! ### In every graph that has a history -/

/-- **Under the reporting policy, the nodes that go with a held root without references are the
least closed set**, however wrong the counts have become. The others keep their node and mark and
lose the references from those nodes, as far as they have them. The order of operands and the order
in which nodes wait decide nothing of this. -/
theorem History.release_isLeast (H : History) (hpolicy : H.settings.policy = .report) {r : Root}
    (hr : r ∈ H.held) (hzero : H.graph.count? r.node = some 0) :
    ∃ report G, H.graph.release r = (.done report, G) ∧
      IsLeast {S | H.graph.ReleaseClosed r.node S} {h | h ∈ report} ∧
      (∀ h, G.contains h ↔ H.graph.contains h ∧ h ∉ report) ∧
      (∀ h e, H.graph.get? h = some e → h ∉ report → ∃ e', G.get? h = some e' ∧
        e'.node = e.node ∧ e'.rooted = e.rooted ∧
        e'.count.value = e.count.value - H.graph.occurrences {p | p ∈ report} h) ∧
      (∀ d, Cascade.StepsInAnyOrder (.start (H.graph.unroot r.node) r.node) d →
        d.edges = [] → d.pending = [] →
        (∀ h, h ∈ d.report ↔ h ∈ report) ∧ ∀ h, d.graph.get? h = G.get? h) ∧
      ∀ K : Graph, K.policy = .report → H.graph.SameUpToOperandOrder K →
        ∃ report' K', K.release r = (.done report', K') ∧
          (∀ h, h ∈ report' ↔ h ∈ report) ∧ G.SameUpToOperandOrder K' := by
  have hpolicy' : H.graph.policy = .report := H.policy_graph.trans hpolicy
  obtain ⟨e, he, hroot⟩ := Option.map_eq_some_iff.1 (mem_held_iff.1 hr)
  have hzero' : e.count.value = 0 := by simpa [Graph.count?, he] using hzero
  obtain ⟨report, G, hrel, hleast, hw⟩ := Graph.exists_release_eq_done hpolicy' he hroot hzero'
  refine ⟨report, G, hrel, hleast, fun h => hw.contains_iff, fun h e => hw.exists_entry, ?_, ?_⟩
  · intro d hd hedges hpending
    exact Graph.stepsInAnyOrder_agree hpolicy' he hroot hzero' hrel hd hedges hpending
  · intro K hK hsame
    obtain ⟨a, g', b, G', ha, hb, hmem, hafter⟩ := hsame.release hpolicy' hK he hroot hzero'
    obtain ⟨rfl, rfl⟩ : report = a ∧ G = g' := by simpa using hrel.symm.trans ha
    exact ⟨b, G', hb, fun h => (hmem h).symm, hafter⟩

/-- A sum of a number with itself, held by a root, from whose operand a reference was taken that the
sum accounts for. -/
def History.overdrawn : History where
  id := ⟨1⟩
  settings := .standard
  commands := [.intLiteral 7, .arithmetic .add [.ofSlot 1 0, .ofSlot 1 0], .root (.ofSlot 1 1),
    .decrement (.ofSlot 1 0)]

/-- The operand goes with the sum, though it has one reference for two edges. -/
theorem History.overdrawn_release :
    overdrawn.settings.policy = .report ∧ ⟨.ofSlot 1 1⟩ ∈ overdrawn.held ∧
      overdrawn.graph.count? (.ofSlot 1 1) = some 0 ∧
      ∃ report G, overdrawn.graph.release ⟨.ofSlot 1 1⟩ = (.done report, G) ∧
        .ofSlot 1 1 ∈ report ∧ .ofSlot 1 0 ∈ report := by
  refine ⟨rfl, by decide, by decide, ?_⟩
  obtain ⟨report, G, hrel, ⟨⟨hroot, hclosed⟩, -⟩, -⟩ :=
    release_isLeast overdrawn (r := ⟨.ofSlot 1 1⟩) rfl (by decide) (by decide)
  refine ⟨report, G, hrel, hroot, hclosed _ (by decide) ?_⟩
  have hpos : 0 < overdrawn.graph.occurrences {h | h ∈ report} (.ofSlot 1 0) :=
    Graph.occurrences_pos_iff.2 ⟨.ofSlot 1 1, hroot, by decide⟩
  exact ⟨⟨.intLiteral 7, ⟨1, by decide⟩, false⟩, by decide, rfl, Nat.le_refl 1, hpos⟩

end SharedExpr
