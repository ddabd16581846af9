import SharedExpr.Proofs.History.Balance
import SharedExpr.Proofs.Release.Garbage

/-!
# The order of releases does not matter

Which release reclaims a shared node depends on which comes last. What all of them together reclaim
does not, because it can be said of the graph before the first: what stays is what is reached from
a node that no root holds and nothing refers to.

* `Graph.IsLoose` — such a node. No release makes one or takes one away.
* `Graph.Sheds` — what a graph is after some of its nodes were reclaimed. Steps of this kind compose
  (`Graph.Sheds.trans`), so a list of releases is one of them (`Graph.Balanced.releaseAll`).
* `Graph.Sheds.contains_iff` — **what is left when no root is held any more**.
* `History.release_order` — two orders of releasing every root that is held, compared.
-/

namespace SharedExpr

namespace Graph

variable {g G K G₁ G₂ : Graph} {h k p c : Handle} {r : Root} {e : Entry} {rs : List Root}
  {gone gone' : List Handle}

/-! ### Graphs that differ by reclaimed nodes -/

/-- The node is live, no root holds it and nothing refers to it. -/
def IsLoose (g : Graph) (k : Handle) : Prop :=
  g.isRooted? k = some false ∧ ∀ p, (p, k) ∉ g.edges

/-- A loose node is live. -/
theorem IsLoose.contains (hk : g.IsLoose k) : g.contains k := by
  obtain ⟨e, he, -⟩ := Option.map_eq_some_iff.1 hk.1
  exact contains_iff.2 ⟨e, he⟩

/-- A graph and what is left of it after the listed nodes were reclaimed. -/
structure Sheds (g : Graph) (gone : List Handle) (G : Graph) : Prop where
  /-- No node is reclaimed twice. -/
  nodup : gone.Nodup
  /-- Reclaimed nodes were live. -/
  live : ∀ h ∈ gone, g.contains h
  /-- They are gone, and the others are as they were. -/
  node? : ∀ h, G.node? h = if h ∈ gone then none else g.node? h
  /-- The same nodes are loose. -/
  loose : ∀ k, G.IsLoose k ↔ g.IsLoose k
  /-- No node is added. -/
  constructed : G.totals.constructed = g.totals.constructed
  /-- No reference is added. -/
  increments : G.totals.increments = g.totals.increments

namespace Sheds

/-- A graph that was left alone has lost nothing. -/
theorem refl (g : Graph) : g.Sheds [] g :=
  ⟨List.nodup_nil, by simp, fun _ => rfl, fun _ => .rfl, rfl, rfl⟩

/-- A node is left if it was live and is not one of those reclaimed. -/
theorem mem_contains (hs : g.Sheds gone G) : G.contains h ↔ g.contains h ∧ h ∉ gone := by
  have hn := congrArg Option.isSome (hs.node? h)
  rw [Graph.node?, Option.isSome_map] at hn
  rw [Graph.contains, hn]
  split
  · rename_i hh
    simp [hh]
  · rename_i hh
    rw [Graph.node?, Option.isSome_map]
    simp [hh, Graph.contains]

/-- The edges that are left are those of the nodes that are left. -/
theorem mem_edges (hs : g.Sheds gone G) : (p, c) ∈ G.edges ↔ p ∉ gone ∧ (p, c) ∈ g.edges :=
  mem_edges_of_node? hs.node?

/-- What is reclaimed later was live until then, so nothing is reclaimed twice. -/
theorem trans (hs : g.Sheds gone G) (ht : G.Sheds gone' K) : g.Sheds (gone ++ gone') K where
  nodup := List.nodup_append.2 ⟨hs.nodup, ht.nodup, fun a ha b hb hab =>
    (hs.mem_contains.1 (ht.live b hb)).2 (hab ▸ ha)⟩
  live h hh := by
    rcases List.mem_append.1 hh with hh | hh
    · exact hs.live h hh
    · exact (hs.mem_contains.1 (ht.live h hh)).1
  node? h := by
    rw [ht.node? h, hs.node? h]
    by_cases hh : h ∈ gone <;> by_cases hh' : h ∈ gone' <;> simp [hh, hh']
  loose k := (ht.loose k).trans (hs.loose k)
  constructed := ht.constructed.trans hs.constructed
  increments := ht.increments.trans hs.increments

end Sheds

/-! ### One release -/

/-- A release neither builds a node nor adds a reference. -/
theorem totals_release (g : Graph) (r : Root) :
    (g.release r).2.totals.constructed = g.totals.constructed ∧
      (g.release r).2.totals.increments = g.totals.increments := by
  have hun : (g.unroot r.node).totals = g.totals := g.totals_setRooted r.node false
  have hrel := g.release_released r
  generalize g.release r = result at hrel
  cases hrel with
  | refused hr => exact ⟨rfl, rfl⟩
  | unrooted he hroot hpos =>
      rw [totals_tell, hun]
      exact ⟨rfl, rfl⟩
  | reclaimed he hroot hzero hm hedges hpending =>
      have hc := conserves_of_moves hm
      rw [← hun]
      exact ⟨hc.constructed, hc.increments⟩
  | aborted he hroot hzero hm hpolicy hedges hf =>
      have hc := conserves_of_moves hm
      rw [totals_note, ← hun]
      exact ⟨hc.constructed, hc.increments⟩

section one

variable (hg : g.Balanced) (he : g.get? r.node = some e)
include hg he

/-- Taking the root of a node that has parents loosens nothing. -/
theorem sheds_of_pos (hpos : 0 < e.count.value) :
    g.Sheds [] ((g.unroot r.node).tell (.unrooted r.node e.count.value)) := by
  refine ⟨List.nodup_nil, by simp, ?_, ?_, ?_, ?_⟩
  · intro h
    rw [node?_tell]
    exact g.node?_setRooted r.node h false
  · intro k
    have hedges : ∀ p, (p, k) ∈ ((g.unroot r.node).tell (.unrooted r.node e.count.value)).edges ↔
        (p, k) ∈ g.edges := fun p => mem_edges_unroot
    unfold IsLoose
    simp only [hedges, isRooted?, get?_tell, get?_unroot]
    by_cases hk : k = r.node
    · obtain ⟨p, hp⟩ := inDegree_pos_iff.1 (show 0 < g.inDegree k by
        have hcount := hg.sound.count _ e he
        rw [hk]
        omega)
      exact ⟨fun hl => absurd hp (hl.2 p), fun hl => absurd hp (hl.2 p)⟩
    · rw [if_neg hk]
  · exact congrArg Totals.constructed (g.totals_setRooted r.node false)
  · exact congrArg Totals.increments (g.totals_setRooted r.node false)

/-- A node without references goes with its garbage. Loose nodes are not garbage, and a node whose
parents are all garbage is garbage itself unless it is rooted. -/
theorem exists_sheds_of_zero (hroot : e.rooted = true) (hzero : e.count.value = 0) :
    ∃ report G, g.release r = (.done report, G) ∧ g.Sheds report.toList G := by
  obtain ⟨report, G, hrel, hmem, hnodup, -, -, hw⟩ :=
    hg.sound.exists_release_garbage hg.ordered he hroot hzero
  obtain ⟨hconstructed, hincrements⟩ := g.totals_release r
  rw [hrel] at hconstructed hincrements
  have hcount : g.count? r.node = some 0 := by simp [count?, he, hzero]
  have hedges : ∀ p c, (p, c) ∈ G.edges ↔ p ∉ report ∧ (p, c) ∈ g.edges := fun _ _ =>
    mem_edges_of_node? hw.node?
  refine ⟨report, G, hrel, hnodup, ?_, ?_, ?_, hconstructed, hincrements⟩
  · intro h hh
    exact hg.sound.contains_of_reaches (contains_iff.2 ⟨e, he⟩)
      ((hmem h).1 (Array.mem_toList_iff.1 hh)).1
  · intro h
    simp only [hw.node? h, Array.mem_toList_iff]
  · intro k
    have hclosed := hg.sound.releaseClosed_garbage hcount
    constructor
    · rintro ⟨hk, hnone⟩
      rw [hw.isRooted? k] at hk
      by_cases hkr : k ∈ report
      · simp [hkr] at hk
      · rw [if_neg hkr] at hk
        refine ⟨hk, fun p hp => hkr ((hmem k).2 ?_)⟩
        have hne : k ≠ r.node := fun heq => hkr ((hmem k).2 (heq ▸ hclosed.1))
        refine hclosed.2 k hne (hg.sound.exhaustedBy_iff.2 ⟨hk, ⟨p, hp⟩, fun q hq => ?_⟩)
        by_contra hout
        exact hnone q ((hedges q k).2 ⟨fun hqr => hout ((hmem q).1 hqr), hq⟩)
    · rintro ⟨hk, hnone⟩
      have hne : k ≠ r.node := by
        rintro rfl
        simp [isRooted?, he, hroot] at hk
      have hkr : k ∉ report := fun hkr =>
        ((hmem k).1 hkr).2 k ⟨IsLoose.contains ⟨hk, hnone⟩, Or.inr hnone⟩ hne .refl
      exact ⟨by rw [hw.isRooted? k, if_neg hkr, hk], fun p hp => hnone p ((hedges p k).1 hp).2⟩

end one

/-- A held root can be released. -/
theorem Balanced.exists_sheds (hg : g.Balanced) (hr : g.isRooted? r.node = some true) :
    ∃ report G, g.release r = (.done report, G) ∧ g.Sheds report.toList G := by
  obtain ⟨e, he, hroot⟩ := Option.map_eq_some_iff.1 hr
  rcases Nat.eq_zero_or_pos e.count.value with hzero | hpos
  · exact exists_sheds_of_zero hg he hroot hzero
  · exact ⟨#[], _, release_of_pos he hroot hpos, sheds_of_pos hg he hpos⟩

/-! ### Any number of releases -/

/-- Held roots can be released one after the other. -/
theorem Balanced.releaseAll (hg : g.Balanced) (hnodup : rs.Nodup)
    (hrs : ∀ r ∈ rs, g.isRooted? r.node = some true) :
    ∃ (reports : List (Array Handle)) (G : Graph), g.performAll (rs.map .release) =
        (reports.map fun report => .done (.reclaimed report), G) ∧
      G.Balanced ∧ g.Sheds (reports.flatMap Array.toList) G ∧
      ∀ h, G.isRooted? h = some true ↔ g.isRooted? h = some true ∧ ⟨h⟩ ∉ rs := by
  induction rs generalizing g with
  | nil => exact ⟨[], g, rfl, hg, .refl g, by simp⟩
  | cons r rs ih =>
      obtain ⟨hnot, hnodup⟩ := List.nodup_cons.1 hnodup
      obtain ⟨report, G, hrel, hs⟩ := hg.exists_sheds (hrs r List.mem_cons_self)
      have hG := hg.release r
      have hmarks := g.isRooted?_release r
      rw [hrel] at hG hmarks
      obtain ⟨reports, K, hall, hK, ht, hleft⟩ := ih hG hnodup fun s hs => (hmarks s.node).2
        ⟨hrs s (List.mem_cons_of_mem _ hs), fun heq => hnot (Root.ext_iff.2 heq ▸ hs)⟩
      refine ⟨report :: reports, K, ?_, hK, ?_, ?_⟩
      · rw [List.map_cons, performAll, perform, hrel]
        simp only [replying, Outcome.map, hall, List.map_cons]
      · rw [List.flatMap_cons]
        exact hs.trans ht
      · intro h
        rw [hleft, hmarks, List.mem_cons, and_assoc, not_or]
        exact and_congr_right fun _ => and_congr_left fun _ => not_congr Root.ext_iff.symm

/-! ### What is left in the end -/

/-- **When no root is held, what is left is what loose nodes reach.** -/
theorem Sheds.contains_iff (hs : g.Sheds gone G) (hG : G.Balanced)
    (hnone : ∀ h, G.isRooted? h ≠ some true) :
    G.contains h ↔ ∃ k, g.IsLoose k ∧ g.Reaches k h := by
  constructor
  · intro hh
    obtain ⟨m, hm, hmh, hfirst⟩ := hG.ordered.exists_parentless hh
    obtain ⟨e, he⟩ := Graph.contains_iff.1 hm
    have hroot : G.isRooted? m = some false := by
      have := hnone m
      simpa [isRooted?, he] using this
    exact ⟨m, (hs.loose m).1 ⟨hroot, hfirst⟩,
      Relation.ReflTransGen.mono (fun p c hpc => (hs.mem_edges.1 hpc).2) m h hmh⟩
  · rintro ⟨k, hk, hkh⟩
    induction hkh with
    | refl => exact ((hs.loose k).2 hk).contains
    | tail _ hedge ih =>
        exact hG.sound.live _ _ (hs.mem_edges.2 ⟨(hs.mem_contains.1 ih).2, hedge⟩)

/-- Counts are a matter of nodes. -/
theorem get?_eq_of_node?_eq (h₁ : G₁.Balanced) (h₂ : G₂.Balanced)
    (hnone₁ : ∀ h, G₁.isRooted? h ≠ some true) (hnone₂ : ∀ h, G₂.isRooted? h ≠ some true)
    (hn : ∀ h, G₁.node? h = G₂.node? h) (h : Handle) : G₁.get? h = G₂.get? h := by
  have hh := hn h
  have hroot₁ := hnone₁ h
  have hroot₂ := hnone₂ h
  have hdegree := inDegree_congr (fun p => childrenOf_congr (hn p)) h
  unfold node? at hh
  unfold isRooted? at hroot₁ hroot₂
  rcases he₁ : G₁.get? h with _ | e₁
  · rw [he₁] at hh
    exact (Option.map_eq_none_iff.1 hh.symm).symm
  · rw [he₁] at hh hroot₁
    obtain ⟨e₂, he₂, hnode⟩ := Option.map_eq_some_iff.1 hh.symm
    rw [he₂] at hroot₂
    have hcount₁ := h₁.sound.count h e₁ he₁
    have hcount₂ := h₂.sound.count h e₂ he₂
    have hcount : e₁.count = e₂.count := Count.ext (by rw [hcount₁, hcount₂, hdegree])
    have hrooted : e₁.rooted = e₂.rooted := by
      simp only [Option.map_some, ne_eq, Option.some_inj, Bool.not_eq_true] at hroot₁ hroot₂
      rw [hroot₁, hroot₂]
    rw [he₂]
    obtain ⟨n₁, c₁, b₁⟩ := e₁
    obtain ⟨n₂, c₂, b₂⟩ := e₂
    simp only at hnode hcount hrooted
    rw [hnode, hcount, hrooted]

/-- There are as many nodes as entries. -/
theorem size_eq_length_entries (g : Graph) : g.size = g.entries.length := by
  rw [size, Store.size_eq_length_entries, entries, List.length_map]

/-- Graphs with the same entries have equally many nodes. -/
theorem size_congr (hget : ∀ h, G₁.get? h = G₂.get? h) : G₁.size = G₂.size := by
  rw [size_eq_length_entries, size_eq_length_entries]
  refine ((List.perm_ext_iff_of_nodup (.of_map _ G₁.nodup_entries)
    (.of_map _ G₂.nodup_entries)).2 fun q => ?_).length_eq
  obtain ⟨h, e⟩ := q
  rw [mem_entries, mem_entries, hget]

/-- Two ways of coming to a graph without roots come to the same nodes. -/
theorem Sheds.node?_eq (h₁ : g.Sheds gone G₁) (h₂ : g.Sheds gone' G₂) (hG₁ : G₁.Balanced)
    (hG₂ : G₂.Balanced) (hnone₁ : ∀ h, G₁.isRooted? h ≠ some true)
    (hnone₂ : ∀ h, G₂.isRooted? h ≠ some true) :
    gone.Perm gone' ∧ ∀ h, G₁.node? h = G₂.node? h := by
  have hlive : ∀ h, G₁.contains h ↔ G₂.contains h := fun h =>
    (h₁.contains_iff hG₁ hnone₁).trans (h₂.contains_iff hG₂ hnone₂).symm
  have hmem : ∀ h, h ∈ gone ↔ h ∈ gone' := by
    intro h
    by_cases hh : g.contains h
    · have hleft := hlive h
      rw [h₁.mem_contains, h₂.mem_contains, and_iff_right hh, and_iff_right hh] at hleft
      exact not_iff_not.1 hleft
    · exact iff_of_false (fun hin => hh (h₁.live h hin)) (fun hin => hh (h₂.live h hin))
  refine ⟨(List.perm_ext_iff_of_nodup h₁.nodup h₂.nodup).2 hmem, ?_⟩
  intro h
  rw [h₁.node? h, h₂.node? h]
  simp only [hmem h]

/-- Totals are a matter of what was added and what is left. -/
theorem totals_eq (h₁ : G₁.Tallied) (h₂ : G₂.Tallied) (hget : ∀ h, G₁.get? h = G₂.get? h)
    (hconstructed : G₁.totals.constructed = G₂.totals.constructed)
    (hincrements : G₁.totals.increments = G₂.totals.increments) : G₁.totals = G₂.totals := by
  have hsize := size_congr hget
  have hlength : G₁.edges.length = G₂.edges.length :=
    length_edges_congr fun p => by rw [node?, node?, hget]
  have hreleased : G₁.totals.released = G₂.totals.released := by
    have := h₁.constructed
    have := h₂.constructed
    omega
  have hdecrements : G₁.totals.decrements = G₂.totals.decrements := by
    have := h₁.increments
    have := h₂.increments
    omega
  rcases ht₁ : G₁.totals with ⟨a₁, b₁, c₁, d₁⟩
  rcases ht₂ : G₂.totals with ⟨a₂, b₂, c₂, d₂⟩
  rw [ht₁, ht₂] at hconstructed hincrements hreleased hdecrements
  simp only at hconstructed hincrements hreleased hdecrements
  rw [hconstructed, hincrements, hreleased, hdecrements]

/-- A graph without live nodes is empty and has no edges. -/
theorem size_eq_zero (hnone : ∀ h, ¬ g.contains h) : g.size = 0 ∧ g.edges = [] := by
  have hentries : g.entries = [] := by
    refine List.eq_nil_iff_forall_not_mem.2 fun q hq => hnone q.1 ?_
    exact contains_iff.2 ⟨q.2, mem_entries.1 hq⟩
  refine ⟨by rw [size_eq_length_entries, hentries]; rfl, ?_⟩
  rw [edges, hentries]
  rfl

end Graph

/-! ### Every root that is held -/

namespace History

variable {H : History}

/-- All roots that are held can be released, and then no node is marked. -/
theorem exists_release_all (hdirect : ∀ c ∈ H.commands, c.countsDirectly = false)
    (hsat : H.NeverSaturated) {rs : List Root} (hrs : rs.Perm H.held) :
    ∃ (reports : List (Array Handle)) (G : Graph), H.graph.performAll (rs.map .release) =
        (reports.map fun report => .done (.reclaimed report), G) ∧
      G.Balanced ∧ H.graph.Sheds (reports.flatMap Array.toList) G ∧
      ∀ h, G.isRooted? h ≠ some true := by
  obtain ⟨reports, G, hall, hG, hs, hleft⟩ := (H.balanced hdirect hsat).releaseAll
    (hrs.nodup_iff.2 H.nodup_held) fun r hr => mem_held_iff.1 (hrs.mem_iff.1 hr)
  refine ⟨reports, G, hall, hG, hs, ?_⟩
  intro h hh
  obtain ⟨hmarked, hnot⟩ := (hleft h).1 hh
  exact hnot (hrs.mem_iff.2 (mem_held_iff.2 hmarked))

/-- **The order of releases does not matter.** Every root that is held can be released, in any
order. Together the releases report the same nodes, each once, and leave the same graph: the nodes
that are reached from those that no root held and nothing referred to. If there were none of these,
the graph is empty, all that was constructed was released and every reference was taken away. -/
theorem release_order (H : History) (hdirect : ∀ c ∈ H.commands, c.countsDirectly = false)
    (hsat : H.NeverSaturated) {rs₁ rs₂ : List Root} (h₁ : rs₁.Perm H.held)
    (h₂ : rs₂.Perm H.held) :
    ∃ (reports₁ reports₂ : List (Array Handle)) (G₁ G₂ : Graph),
      H.graph.performAll (rs₁.map .release) =
        (reports₁.map fun report => .done (.reclaimed report), G₁) ∧
      H.graph.performAll (rs₂.map .release) =
        (reports₂.map fun report => .done (.reclaimed report), G₂) ∧
      (reports₁.flatMap Array.toList).Nodup ∧
      (reports₁.flatMap Array.toList).Perm (reports₂.flatMap Array.toList) ∧
      (∀ h, G₁.get? h = G₂.get? h) ∧ G₁.totals = G₂.totals ∧
      G₁.defects = #[] ∧ G₂.defects = #[] ∧
      (∀ h, G₁.contains h ↔ ∃ k, H.graph.isRooted? k = some false ∧
        (∀ p, (p, k) ∉ H.graph.edges) ∧ H.graph.Reaches k h) ∧
      ((∀ k, H.graph.contains k → (∀ p, (p, k) ∉ H.graph.edges) →
          H.graph.isRooted? k = some true) →
        (∀ h, ¬ G₁.contains h) ∧ G₁.size = 0 ∧
          G₁.totals.constructed = G₁.totals.released ∧
          G₁.totals.increments = G₁.totals.decrements) := by
  obtain ⟨reports₁, G₁, hall₁, hG₁, hs₁, hnone₁⟩ := exists_release_all hdirect hsat h₁
  obtain ⟨reports₂, G₂, hall₂, hG₂, hs₂, hnone₂⟩ := exists_release_all hdirect hsat h₂
  obtain ⟨hperm, hnode⟩ := hs₁.node?_eq hs₂ hG₁ hG₂ hnone₁ hnone₂
  have hget := Graph.get?_eq_of_node?_eq hG₁ hG₂ hnone₁ hnone₂ hnode
  refine ⟨reports₁, reports₂, G₁, G₂, hall₁, hall₂, hs₁.nodup, hperm, hget, ?_,
    hG₁.defects, hG₂.defects, ?_, ?_⟩
  · exact Graph.totals_eq hG₁.toTallied hG₂.toTallied hget
      (hs₁.constructed.trans hs₂.constructed.symm) (hs₁.increments.trans hs₂.increments.symm)
  · intro h
    rw [hs₁.contains_iff hG₁ hnone₁]
    simp only [Graph.IsLoose, and_assoc]
  · intro hheld
    have hempty : ∀ h, ¬ G₁.contains h := by
      intro h hh
      obtain ⟨k, hk, -⟩ := (hs₁.contains_iff hG₁ hnone₁).1 hh
      have hmarked := hheld k hk.contains hk.2
      rw [hk.1] at hmarked
      cases hmarked
    obtain ⟨hsize, hedges⟩ := Graph.size_eq_zero hempty
    have hconstructed := hG₁.constructed
    have hincrements := hG₁.increments
    rw [hedges, List.length_nil] at hincrements
    exact ⟨hempty, hsize, by omega, by omega⟩

/-- A sum of a number with itself and a call of it; the call and the sum are held by roots. -/
def called : History where
  id := ⟨1⟩
  settings := .standard
  commands := [.intLiteral 7, .arithmetic .add [.ofSlot 1 0, .ofSlot 1 0],
    .call "f" [.ofSlot 1 1], .root (.ofSlot 1 1), .root (.ofSlot 1 2)]

/-- Whether the sum is given up before the call or after it, nothing is left. -/
theorem called_release :
    (∀ c ∈ called.commands, c.countsDirectly = false) ∧ called.NeverSaturated ∧
      called.held = [⟨.ofSlot 1 2⟩, ⟨.ofSlot 1 1⟩] ∧
      ∃ (reports₁ reports₂ : List (Array Handle)) (G₁ G₂ : Graph),
        called.graph.performAll [.release ⟨.ofSlot 1 1⟩, .release ⟨.ofSlot 1 2⟩] =
          (reports₁.map fun report => .done (.reclaimed report), G₁) ∧
        called.graph.performAll [.release ⟨.ofSlot 1 2⟩, .release ⟨.ofSlot 1 1⟩] =
          (reports₂.map fun report => .done (.reclaimed report), G₂) ∧
        (reports₁.flatMap Array.toList).Perm (reports₂.flatMap Array.toList) ∧
        G₁.totals = G₂.totals ∧ G₁.size = 0 := by
  have hheld : called.held = [⟨.ofSlot 1 2⟩, ⟨.ofSlot 1 1⟩] := by decide
  have hsame : List.Perm [⟨.ofSlot 1 2⟩, ⟨.ofSlot 1 1⟩] called.held := .of_eq hheld.symm
  have hswapped : List.Perm [⟨.ofSlot 1 1⟩, ⟨.ofSlot 1 2⟩] called.held :=
    (List.Perm.swap _ _ _).trans hsame
  refine ⟨by decide, by decide, hheld, ?_⟩
  obtain ⟨reports₁, reports₂, G₁, G₂, h₁, h₂, -, hperm, -, htotals, -, -, -, hempty⟩ :=
    release_order called (by decide) (by decide) hswapped hsame
  refine ⟨reports₁, reports₂, G₁, G₂, h₁, h₂, hperm, htotals, (hempty fun k hk hnone => ?_).2.1⟩
  -- the number is the only node without a root, and it has parents
  have hall : ∀ q ∈ called.graph.entries, q.2.rooted = true ∨
      q.1 ∈ called.graph.edges.map Prod.snd := by decide
  obtain ⟨e, he⟩ := Graph.contains_iff.1 hk
  rcases hall (k, e) (Graph.mem_entries.2 he) with hroot | hchild
  · rw [Graph.isRooted?, he]
    exact congrArg some hroot
  · obtain ⟨⟨p, c⟩, hpc, rfl⟩ := List.mem_map.1 hchild
    exact absurd hpc (hnone p)

end History

end SharedExpr
