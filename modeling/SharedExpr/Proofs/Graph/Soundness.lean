import SharedExpr.Graph.Defect
import SharedExpr.Proofs.Graph.Evolution

/-!
# Sound counts

A count is sound if it is the number of edges to the node together with the references that were
added from the outside and not taken away again. Which references these are is not recorded in the
graph, so they are a parameter here.

* `Graph.Sound` — every child is live and every count is sound.
* `Graph.Capped` — the same of counts that may have stopped at `Count.max`. This is what building
  and incrementing leave behind; with room to count it is soundness (`Graph.Capped.sound`).
* `Graph.audit_eq_nil_iff` — **what it is that an audit confirms**.
* `Graph.Sound.audit_eq_nil_iff` — if the counts are sound, the audit finds nothing exactly if no
  live node has references from the outside.
* `Graph.Sound.build`, `Graph.Sound.raise`, `Graph.Sound.lowerTo` — the operations but for releases,
  which are in `SharedExpr.Proofs.Release.Soundness`.
-/

namespace SharedExpr.Graph

variable {g g' : Graph} {h l : Handle} {e : Entry} {node : Node} {extra extra' : Handle → ℕ}

/-! ### Audits -/

/-- An audit finds nothing exactly if every child is live and every count is the number of edges to
the node as counted afresh. -/
theorem audit_eq_nil_iff : g.audit = [] ↔ (∀ p c, (p, c) ∈ g.edges → g.contains c) ∧
    ∀ h e, g.get? h = some e → e.count.value = g.recount h := by
  rw [audit, List.append_eq_nil_iff, List.eq_nil_iff_forall_not_mem,
    List.eq_nil_iff_forall_not_mem]
  constructor
  · rintro ⟨hdangling, hmismatch⟩
    constructor
    · intro p c hpc
      by_contra hdead
      exact hdangling _ (mem_danglingEdges.2 ⟨p, c, hpc, hdead, rfl⟩)
    · intro h e he
      by_contra hne
      exact hmismatch _ (mem_countMismatches.2 ⟨h, e, he, Ne.symm hne, rfl⟩)
  · rintro ⟨hlive, hcount⟩
    constructor
    · intro fault hf
      obtain ⟨p, c, hpc, hdead, -⟩ := mem_danglingEdges.1 hf
      exact hdead (hlive p c hpc)
    · intro fault hf
      obtain ⟨h, e, he, hne, -⟩ := mem_countMismatches.1 hf
      exact hne (hcount h e he).symm

/-! ### Soundness -/

/-- Children are live, and a count is the number of edges to the node and of the references from
the outside. -/
structure Sound (g : Graph) (extra : Handle → ℕ) : Prop where
  /-- A child of a live node is live. -/
  live : ∀ p c, (p, c) ∈ g.edges → g.contains c
  /-- Each count is the sum of the two numbers. -/
  count : ∀ h e, g.get? h = some e → e.count.value = g.inDegree h + extra h

/-- Children are live, and a count is as close to the sound one as it can be. -/
structure Capped (g : Graph) (extra : Handle → ℕ) : Prop where
  /-- A child of a live node is live. -/
  live : ∀ p c, (p, c) ∈ g.edges → g.contains c
  /-- Each count is the sum of the two numbers, or the largest count. -/
  count : ∀ h e, g.get? h = some e → e.count.value = min (g.inDegree h + extra h) Count.max

/-- A sound count fits, so it is also as close to the sound one as it can be. -/
theorem Sound.capped (hg : g.Sound extra) : g.Capped extra where
  live := hg.live
  count h e he := by
    have hle := e.count.value_le
    have := hg.count h e he
    omega

/-- With room to count, counts are sound. -/
theorem Capped.sound (hg : g.Capped extra) (hroom : ∀ h e, g.get? h = some e →
    e.count.value < Count.max ∨ g.inDegree h + extra h < Count.max) : g.Sound extra where
  live := hg.live
  count h e he := by
    have := hg.count h e he
    have := hroom h e he
    omega

/-- Edges that are all accounted for can be counted afresh. -/
theorem Sound.recount (hg : g.Sound extra) (he : g.get? h = some e) :
    g.recount h = g.inDegree h := by
  have hle := e.count.value_le
  have := hg.count h e he
  exact recount_of_le (by omega)

/-- If the counts are sound, an audit finds nothing exactly if no live node has references from the
outside. -/
theorem Sound.audit_eq_nil_iff (hg : g.Sound extra) :
    g.audit = [] ↔ ∀ h, g.contains h → extra h = 0 := by
  rw [Graph.audit_eq_nil_iff]
  constructor
  · rintro ⟨-, hcount⟩ h hh
    obtain ⟨e, he⟩ := contains_iff.1 hh
    have hsum := hg.count h e he
    have hfresh := hcount h e he
    rw [hg.recount he] at hfresh
    omega
  · intro hextra
    refine ⟨hg.live, ?_⟩
    intro h e he
    have hsum := hg.count h e he
    have hnone := hextra h (contains_iff.2 ⟨e, he⟩)
    rw [hg.recount he]
    omega

/-- Whether children are live is a matter of nodes. -/
theorem live_congr (hn : ∀ h, g'.node? h = g.node? h)
    (hlive : ∀ p c, (p, c) ∈ g.edges → g.contains c) :
    ∀ p c, (p, c) ∈ g'.edges → g'.contains c := by
  intro p c hpc
  rw [mem_edges_iff, childrenOf_congr (hn p)] at hpc
  rw [contains_congr (hn c)]
  exact hlive p c (mem_edges_iff.2 hpc)

/-- Soundness is a matter of nodes and counts. -/
theorem Sound.congr (hg : g.Sound extra) (hn : ∀ h, g'.node? h = g.node? h)
    (hc : ∀ h, g'.count? h = g.count? h) : g'.Sound extra where
  live := live_congr hn hg.live
  count h e he := by
    obtain ⟨e₀, he₀, hvalue⟩ : ∃ e₀, g.get? h = some e₀ ∧ e₀.count.value = e.count.value := by
      have := hc h
      rw [count?, he] at this
      exact Option.map_eq_some_iff.1 this.symm
    rw [← hvalue, hg.count h e₀ he₀, inDegree_congr fun p => childrenOf_congr (hn p)]

/-! ### Building -/

/-- After a construction the new node has the operands as children, and the others have theirs. -/
theorem childrenOf_built (p : Handle) : (node.children.foldl raise (g.add node).2).childrenOf p =
    if p = (g.add node).1 then node.children else g.childrenOf p := by
  rw [childrenOf, node?_built]
  split <;> rfl

/-- A construction adds the occurrences of its operands to the edges. -/
theorem inDegree_built (h : Handle) : (node.children.foldl raise (g.add node).2).inDegree h =
    g.inDegree h + node.children.count h := by
  have hnew : g.childrenOf (g.add node).1 = [] := childrenOf_of_get?_none (g.get?_add_fst node)
  have hsum : g.inDegree h +
      (node.children.foldl raise (g.add node).2).occurrences (insert (g.add node).1 ∅) h =
      (node.children.foldl raise (g.add node).2).inDegree h := by
    refine inDegree_add_occurrences (fun p hp => ?_) (fun p hp => ?_) h
    · obtain rfl : p = (g.add node).1 := by simpa using hp
      exact hnew
    · rw [childrenOf_built, if_neg (by simpa using hp)]
  rw [occurrences_insert (Set.notMem_empty _), occurrences_empty, Nat.add_zero,
    childrenOf_built, if_pos rfl] at hsum
  exact hsum.symm

/-- What is live stays live when a node is built. -/
theorem contains_built (hlive : ∀ c ∈ node.children, g.contains c) (hh : g.contains h) :
    (node.children.foldl raise (g.add node).2).contains h := by
  obtain ⟨e, he⟩ := contains_iff.1 hh
  rw [contains, get?_built hlive]
  split <;> simp [he]

/-- Whatever a live node reaches is live. -/
theorem Sound.contains_of_reaches (hg : g.Sound extra) (hh : g.contains h) (hl : g.Reaches h l) :
    g.contains l := by
  induction hl with
  | refl => exact hh
  | tail _ hedge _ => exact hg.live _ _ hedge

/-- No edge leads to a handle that is not live. -/
theorem Sound.inDegree_of_not_contains (hg : g.Sound extra) (hh : ¬ g.contains h) :
    g.inDegree h = 0 := by
  by_contra hne
  obtain ⟨p, hp⟩ := inDegree_pos_iff.1 (Nat.pos_of_ne_zero hne)
  exact hh (hg.live p h hp)

/-- A construction leaves counts as close to the sound ones as they can be. -/
theorem Sound.build (hg : g.Sound extra) (node : Node) (hnew : extra (g.add node).1 = 0) :
    (g.build node).2.Capped extra := by
  have hb := g.build_built node
  generalize g.build node = result at hb
  cases hb with
  | refused hm hdead => exact hg.capped
  | done hlive =>
      refine ⟨fun p c hpc => contains_built hlive ?_, ?_⟩
      · rw [mem_edges_iff, childrenOf_built] at hpc
        split at hpc
        · exact hlive c hpc
        · exact hg.live p c (mem_edges_iff.2 hpc)
      · intro h e he
        rw [inDegree_built]
        rw [get?_built hlive] at he
        by_cases hh : h = (g.add node).1
        · -- nothing refers to the new node yet
          rw [if_pos hh] at he
          cases he
          have hdead : ¬ g.contains h := by rw [hh, contains, get?_add_fst]; simp
          have hcount : node.children.count h = 0 :=
            List.count_eq_zero.2 (hh ▸ add_fst_not_mem_children hlive)
          rw [hg.inDegree_of_not_contains hdead, hcount, hh, hnew]
          rfl
        · rw [if_neg hh] at he
          obtain ⟨e₀, he₀, rfl⟩ := Option.map_eq_some_iff.1 he
          rw [Count.value_plus, hg.count h e₀ he₀]
          congr 1
          omega

/-! ### Single references -/

/-- One reference more from the outside. -/
theorem Sound.raise (hg : g.Sound extra) (h : Handle)
    (hextra : ∀ l, extra' l = extra l + if l = h then 1 else 0) : (g.raise h).Capped extra' := by
  have hnode := g.node?_raise h
  refine ⟨live_congr hnode hg.live, ?_⟩
  intro l e he
  rw [inDegree_congr fun p => childrenOf_congr (hnode p), hextra]
  rw [get?_raise] at he
  by_cases hl : l = h
  · rw [if_pos hl] at he ⊢
    obtain ⟨e₀, he₀, rfl⟩ := Option.map_eq_some_iff.1 he
    rw [Count.value_increment, hg.count h e₀ he₀, hl]
    rfl
  · rw [if_neg hl] at he ⊢
    exact hg.capped.count l e he

/-- One reference less from the outside. -/
theorem Sound.lowerTo (hg : g.Sound extra) {count : Count} (he : g.get? h = some e)
    (hcount : e.count.decrement? = some count)
    (hextra : ∀ l, extra l = extra' l + if l = h then 1 else 0) :
    (g.lowerTo h count).Sound extra' := by
  have hnode := g.node?_lowerTo h count
  refine ⟨live_congr hnode hg.live, ?_⟩
  intro l e' he'
  rw [inDegree_congr fun p => childrenOf_congr (hnode p)]
  rw [get?_lowerTo] at he'
  have hl := hextra l
  by_cases heq : l = h
  · rw [if_pos heq, he, Option.map_some, Option.some_inj] at he'
    subst he' heq
    have := hg.count l e he
    have := Count.value_of_decrement? hcount
    simp only [↓reduceIte] at hl ⊢
    omega
  · rw [if_neg heq] at he' hl
    rw [hg.count l e' he', hl, Nat.add_zero]

/-! ### Marks -/

/-- A mark leaves counts sound. -/
theorem Sound.setRooted (hg : g.Sound extra) (h : Handle) (rooted : Bool) :
    (g.setRooted h rooted).Sound extra :=
  hg.congr (fun l => g.node?_setRooted h l rooted) (g.count?_setRooted h rooted)

end SharedExpr.Graph
