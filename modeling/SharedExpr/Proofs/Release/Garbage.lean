import SharedExpr.Proofs.History.Soundness
import SharedExpr.Proofs.Release.Fixpoint

/-!
# A release reclaims the garbage

If every count is the number of edges to its node, the least closed set of
`SharedExpr.Proofs.Release.Fixpoint` is the garbage: what the released node reaches and no other
node reaches that has to stay, because it is rooted or because nothing refers to it.

* `Graph.IsAnchor`, `Graph.garbage` — the nodes that have to stay, and the garbage.
* `Graph.Sound.isLeast_garbage` — **the garbage is the least closed set**. That it is closed needs
  no order; that it is least needs that nodes are ordered (`Graph.Ordered.exists_first`).
* `Graph.Justified.pairwise_edges`, `Graph.Justified.head?` — the order of the report.
* `History.release_garbage` — what a release does in a history without direct references.
-/

namespace SharedExpr

namespace Graph

variable {g G : Graph} {r h n p : Handle} {S : Set Handle} {l : List Handle} {extra : Handle → ℕ}

/-! ### Garbage -/

/-- The node is live, and it is rooted or nothing refers to it. -/
def IsAnchor (g : Graph) (k : Handle) : Prop :=
  g.contains k ∧ (g.isRooted? k = some true ∨ ∀ p, (p, k) ∉ g.edges)

/-- What a node reaches and no other anchor does. -/
def garbage (g : Graph) (r : Handle) : Set Handle :=
  {n | g.Reaches r n ∧ ∀ k, g.IsAnchor k → k ≠ r → ¬ g.Reaches k n}

section sound

variable (hg : g.Sound fun _ => 0)
include hg

/-- A node without references has no parent. -/
theorem Sound.no_parent_of_zero (hzero : g.count? r = some 0) : (p, r) ∉ g.edges := by
  intro hp
  obtain ⟨e, he, hvalue⟩ := Option.map_eq_some_iff.1 hzero
  have hcount := hg.count r e he
  have hpos := inDegree_pos_iff.2 ⟨p, hp⟩
  omega

/-- Exhausted nodes are the unrooted ones that have parents, all of them in the set. -/
theorem Sound.exhaustedBy_iff : g.ExhaustedBy (g.occurrences S h) h ↔
    g.isRooted? h = some false ∧ (∃ p, (p, h) ∈ g.edges) ∧ ∀ p, (p, h) ∈ g.edges → p ∈ S := by
  constructor
  · rintro ⟨e, he, hroot, hpos, hle⟩
    have hcount := hg.count h e he
    exact ⟨by simp [isRooted?, he, hroot], inDegree_pos_iff.1 (by omega),
      fun p hp => mem_of_inDegree_le_occurrences (by omega) hp⟩
  · rintro ⟨hroot, hparent, hS⟩
    obtain ⟨e, he, hroot⟩ := Option.map_eq_some_iff.1 hroot
    have hcount := hg.count h e he
    have hpos := inDegree_pos_iff.2 hparent
    have hle := inDegree_le_occurrences hS
    exact ⟨e, he, hroot, by omega, by omega⟩

/-- The garbage holds whatever is exhausted by it. -/
theorem Sound.releaseClosed_garbage (hzero : g.count? r = some 0) :
    g.ReleaseClosed r (g.garbage r) := by
  refine ⟨⟨.refl, fun k _ hne hk => ?_⟩, ?_⟩
  · obtain ⟨q, -, hq⟩ := hk.exists_parent hne
    exact hg.no_parent_of_zero hzero hq
  · intro h hne hex
    obtain ⟨hroot, ⟨p, hp⟩, hall⟩ := hg.exhaustedBy_iff.1 hex
    refine ⟨(hall p hp).1.tail hp, ?_⟩
    intro k hk hkr hkh
    by_cases heq : k = h
    · rcases hk.2 with hrooted | hnone
      · rw [heq, hroot] at hrooted
        cases hrooted
      · exact hnone p (heq ▸ hp)
    · -- an anchor that reaches the node reaches one of its parents
      obtain ⟨q, hkq, hq⟩ := hkh.exists_parent heq
      exact (hall q hq).2 k hk hkr hkq

/-- A closed set holds the garbage. -/
theorem Sound.garbage_subset (hordered : g.Ordered) (hr : g.contains r)
    (hS : g.ReleaseClosed r S) : g.garbage r ⊆ S := by
  intro n hn
  by_contra hout
  -- the first of the nodes outside of the set that reach `n` would have to be an anchor
  obtain ⟨m, ⟨hm, hmS, hmn⟩, hfirst⟩ := hordered.exists_first
    (U := {m | g.contains m ∧ m ∉ S ∧ g.Reaches m n}) (fun m hm => hm.1)
    ⟨n, hg.contains_of_reaches hr hn.1, hout, .refl⟩
  have hne : m ≠ r := fun heq => hmS (heq ▸ hS.1)
  have hanchor : ¬ g.IsAnchor m := fun hk => hn.2 m hk hne hmn
  obtain ⟨e, he⟩ := contains_iff.1 hm
  refine hmS (hS.2 m hne (hg.exhaustedBy_iff.2 ⟨?_, ?_, fun p hp => ?_⟩))
  · by_contra hroot
    exact hanchor ⟨hm, Or.inl (by simpa [isRooted?, he] using hroot)⟩
  · by_contra hnone
    exact hanchor ⟨hm, Or.inr fun p hp => hnone ⟨p, hp⟩⟩
  · by_contra hpS
    exact hfirst p ⟨contains_of_mem_edges hp, hpS, .head hp hmn⟩ hp

/-- **The garbage is the least closed set.** -/
theorem Sound.isLeast_garbage (hordered : g.Ordered) (hr : g.contains r)
    (hzero : g.count? r = some 0) : IsLeast {S | g.ReleaseClosed r S} (g.garbage r) :=
  ⟨hg.releaseClosed_garbage hzero, fun _ hS => hg.garbage_subset hordered hr hS⟩

end sound

/-! ### The order of the report -/

/-- A justified list begins with the released node. -/
theorem Justified.head? (hl : g.Justified r l) (hne : l ≠ []) : l.head? = some r := by
  induction hl with
  | nil => exact absurd rfl hne
  | @snoc l h _ hh ih =>
      by_cases hnil : l = []
      · subst hnil
        rcases hh with rfl | ⟨e, -, -, hpos, hle⟩
        · rfl
        · simp at hle
          omega
      · rw [List.head?_append_of_ne_nil _ hnil]
        exact ih hnil

section order

variable (hg : g.Sound extra) (hr : ∀ e, g.get? r = some e → e.count.value = 0)
  (hl : g.Justified r l)
include hg hr hl

/-- The parents of justified nodes are justified. -/
theorem Justified.parent_mem (hh : h ∈ l) (hp : (p, h) ∈ g.edges) : p ∈ l := by
  obtain ⟨e, he⟩ := contains_iff.1 (hg.live p h hp)
  have hcount := hg.count h e he
  have hpos := inDegree_pos_iff.2 ⟨p, hp⟩
  induction hl with
  | nil => simp at hh
  | @snoc l x _ hx ih =>
      rcases List.mem_append.1 hh with hh | hh
      · exact List.mem_append_left _ (ih hh)
      · obtain rfl := List.mem_singleton.1 hh
        rcases hx with rfl | ⟨e', he', -, -, hle⟩
        · have := hr e he
          omega
        · obtain rfl : e' = e := Option.some_inj.1 (he'.symm.trans he)
          have hmem : p ∈ {p | p ∈ l} := mem_of_inDegree_le_occurrences (by omega) hp
          exact List.mem_append_left _ hmem

/-- No node of a justified list comes before a parent. -/
theorem Justified.pairwise_edges (hnodup : l.Nodup) : l.Pairwise fun a b => (b, a) ∉ g.edges := by
  induction hl with
  | nil => exact .nil
  | @snoc l h hl _ ih =>
      obtain ⟨hl', -, hdisjoint⟩ := List.nodup_append.1 hnodup
      refine List.pairwise_append.2 ⟨ih hl', List.pairwise_singleton _ _, fun a ha b hb hba => ?_⟩
      exact hdisjoint b (hl.parent_mem hg hr ha hba) b hb rfl

end order

/-- In a list in which no node comes before a parent, parents have the smaller indices. -/
theorem Ordered.lt_of_pairwise (hordered : g.Ordered)
    (hl : l.Pairwise fun a b => (b, a) ∉ g.edges) {i j : ℕ} {p c : Handle} (hi : l[i]? = some p)
    (hj : l[j]? = some c) (hpc : (p, c) ∈ g.edges) : i < j := by
  obtain ⟨hi', rfl⟩ := List.getElem?_eq_some_iff.1 hi
  obtain ⟨hj', rfl⟩ := List.getElem?_eq_some_iff.1 hj
  rcases Nat.lt_trichotomy i j with hlt | rfl | hgt
  · exact hlt
  · exact absurd rfl (hordered.ne_of_mem_edges hpc)
  · exact absurd hpc (List.pairwise_iff_getElem.1 hl j i hj' hi' hgt)

/-! ### The release of a node without references -/

/-- The garbage goes, every node after its parents, and the rest loses the references from it. -/
theorem Sound.exists_release_garbage {r : Root} {e : Entry} (hg : g.Sound fun _ => 0)
    (hordered : g.Ordered) (he : g.get? r.node = some e) (hroot : e.rooted = true)
    (hzero : e.count.value = 0) :
    ∃ report G, g.release r = (.done report, G) ∧
      (∀ n, n ∈ report ↔ n ∈ g.garbage r.node) ∧ report.toList.Nodup ∧
      report.toList.head? = some r.node ∧
      (report.toList.Pairwise fun a b => (b, a) ∉ g.edges) ∧ g.Without report G := by
  obtain ⟨c, hm, hedges, hpending, hrel⟩ :=
    exists_cascade he hroot hzero (hg.release r).2.2
  have hc := accounts_of_moves hm he hzero
  have hleast := isLeast_of_accounts hc hedges hpending
  have hcount : g.count? r.node = some 0 := by simp [count?, he, hzero]
  have hset : {h | h ∈ c.report} = g.garbage r.node :=
    hleast.unique (hg.isLeast_garbage hordered (contains_iff.2 ⟨e, he⟩) hcount)
  have hnodup : c.report.toList.Nodup := (List.nodup_append.1 hc.nodup).1
  have hne : c.report.toList ≠ [] :=
    List.ne_nil_of_mem (Array.mem_toList_iff.2 hleast.1.1)
  have hpairwise := hc.justified.pairwise_edges (hg.unroot r.node)
    (count_unroot_of_zero he hzero) hnodup
  simp only [mem_edges_unroot] at hpairwise
  exact ⟨_, _, hrel, Set.ext_iff.1 hset, hnodup, hc.justified.head? hne, hpairwise,
    without_of_accounts hc hedges hpending⟩

end Graph

/-! ### In every history without direct references -/

/-- **A release reclaims the garbage.** The root of a node with references is given up, and nothing
else happens. With a node without references goes exactly what it reaches and no other anchor does,
each node once and after its parents, itself first; the others keep their node and mark and lose one
reference for each time that a reclaimed node names them. -/
theorem History.release_garbage (H : History) (hdirect : ∀ c ∈ H.commands, c.countsDirectly = false)
    (hdegree : ∀ K ∈ H.past, ∀ h, K.graph.inDegree h < Count.max) {r : Root} (hr : r ∈ H.held) :
    ∃ e, H.graph.get? r.node = some e ∧ e.rooted = true ∧
      (0 < e.count.value → ∃ G, H.graph.release r = (.done #[], G) ∧
        (∀ h, G.get? h = if h = r.node then some { e with rooted := false } else H.graph.get? h) ∧
        G.totals = H.graph.totals ∧ G.defects = H.graph.defects ∧ G.log = H.graph.log) ∧
      (e.count.value = 0 → ∃ report G, H.graph.release r = (.done report, G) ∧
        (∀ n, n ∈ report ↔ H.graph.Reaches r.node n ∧
          ∀ k, H.graph.contains k → k ≠ r.node →
            H.graph.isRooted? k = some true ∨ (∀ p, (p, k) ∉ H.graph.edges) →
            ¬ H.graph.Reaches k n) ∧
        report.toList.Nodup ∧ report[0]? = some r.node ∧
        (∀ (i j : ℕ) p c, report[i]? = some p → report[j]? = some c →
          (p, c) ∈ H.graph.edges → i < j) ∧
        (∀ h, G.contains h ↔ H.graph.contains h ∧ h ∉ report) ∧
        ∀ h e, H.graph.get? h = some e → h ∉ report → ∃ e', G.get? h = some e' ∧
          e'.node = e.node ∧ e'.rooted = e.rooted ∧
          e'.count.value + H.graph.occurrences {p | p ∈ report} h = e.count.value) := by
  have hg : H.graph.Sound fun _ => 0 :=
    sound_of_not_counts hdirect fun K hK h _ _ => Or.inr (hdegree K hK h)
  obtain ⟨e, he, hroot⟩ := Option.map_eq_some_iff.1 (mem_held_iff.1 hr)
  refine ⟨e, he, hroot, ?_, ?_⟩
  · intro hpos
    refine ⟨_, Graph.release_of_pos he hroot hpos, ?_, ?_, ?_, ?_⟩
    · intro h
      rw [Graph.get?_tell, Graph.get?_unroot, he]
      rfl
    · exact H.graph.totals_setRooted r.node false
    · exact H.graph.defects_setRooted r.node false
    · exact H.graph.log_setRooted r.node false
  · intro hzero
    obtain ⟨report, G, hrel, hmem, hnodup, hhead, hpairwise, hw⟩ :=
      hg.exists_release_garbage H.ordered he hroot hzero
    refine ⟨report, G, hrel, ?_, hnodup, ?_, ?_, fun h => hw.contains_iff, ?_⟩
    · intro n
      rw [hmem]
      refine and_congr_right fun _ => forall_congr' fun k => ?_
      exact ⟨fun hk hlive hne hhold => hk ⟨hlive, hhold⟩ hne,
        fun hk hhold hne => hk hhold.1 hne hhold.2⟩
    · rwa [List.head?_eq_getElem?, Array.getElem?_toList] at hhead
    · intro i j p c hi hj hpc
      rw [← Array.getElem?_toList] at hi hj
      exact H.ordered.lt_of_pairwise hpairwise hi hj hpc
    · intro h e hh hnot
      obtain ⟨e', he', hnode, hrooted, hvalue⟩ := hw.exists_entry hh hnot
      have hle := H.graph.occurrences_le_inDegree {p | p ∈ report} h
      have hcount := hg.count h e hh
      exact ⟨e', he', hnode, hrooted, by omega⟩

/-- A sum of a number, taken twice, and a variable; the sum and the variable are held by roots. -/
def History.summed : History where
  id := ⟨1⟩
  settings := .standard
  commands := [.intLiteral 7, .varUse "x",
    .arithmetic .add [.ofSlot 1 0, .ofSlot 1 0, .ofSlot 1 1], .root (.ofSlot 1 1),
    .root (.ofSlot 1 2)]

/-- The sum goes first and the variable stays. -/
theorem History.summed_release :
    (∀ c ∈ summed.commands, c.countsDirectly = false) ∧
      (∀ K ∈ summed.past, ∀ h, K.graph.inDegree h < Count.max) ∧
      ⟨.ofSlot 1 2⟩ ∈ summed.held ∧
      ∃ report G, summed.graph.release ⟨.ofSlot 1 2⟩ = (.done report, G) ∧
        report[0]? = some (.ofSlot 1 2) ∧ .ofSlot 1 1 ∉ report := by
  have hdegree : ∀ K ∈ summed.past, ∀ h, K.graph.inDegree h < Count.max := by
    have hlength : ∀ K ∈ summed.past, (K.graph.edges.map Prod.snd).length < Count.max := by decide
    exact fun K hK h => List.count_le_length.trans_lt (hlength K hK)
  refine ⟨by decide, hdegree, by decide, ?_⟩
  obtain ⟨e, he, -, -, hgone⟩ :=
    release_garbage summed (by decide) hdegree (r := ⟨.ofSlot 1 2⟩) (by decide)
  have hzero : e.count.value = 0 := by
    have hcount : summed.graph.count? (.ofSlot 1 2) = some 0 := by decide
    simpa [Graph.count?, he] using hcount
  obtain ⟨report, G, hrel, hmem, -, hfirst, -⟩ := hgone hzero
  refine ⟨report, G, hrel, hfirst, ?_⟩
  intro hvar
  exact ((hmem _).1 hvar).2 (.ofSlot 1 1) (by decide) (by decide) (Or.inl (by decide)) .refl

end SharedExpr
