import SharedExpr.Proofs.Graph.Descent
import SharedExpr.Walk.Basic

/-!
# Walks that end

A visitor that asks to come back to the node it is at can keep a walk going for ever. That is the
only way: on an ordered graph, where every child comes before its parents, a walk whose visitor asks
for visits of children ends, however many it asks for, at either end of the agenda, and whether or
not it forgets what is pending.

* `Visit.Leaves` — what such requests leave of an agenda: visits of children, and some of those that
  were pending.
* `Graph.Ordered.exists_walk_ends` — **a walk that only goes down ends**.
-/

namespace SharedExpr

variable {σ ι : Type}

namespace Visit

variable {v : Visit ι} {n : Node} {pending : Multiset (Visit ι)} {a : Agenda (Visit ι)}
  {requests : List (Request ι)}

/-- The agenda consists of visits of children of a node and of some of the visits in `pending`. -/
def Leaves (n : Node) (pending : Multiset (Visit ι)) (a : Agenda (Visit ι)) : Prop :=
  ∃ below kept : Multiset (Visit ι), ↑a.toList = below + kept ∧ kept ≤ pending ∧
    ∀ w ∈ below, w.node ∈ n.children

/-- Visits of children that are added, on either side, are visits of children. -/
theorem Leaves.add {b : Agenda (Visit ι)} (ha : Leaves n pending a) (new : List (Visit ι))
    (hb : b.toList.Perm (new ++ a.toList)) (hnew : ∀ w ∈ new, w.node ∈ n.children) :
    Leaves n pending b := by
  obtain ⟨below, kept, hab, hkept, hbelow⟩ := ha
  refine ⟨↑new + below, kept, ?_, hkept, ?_⟩
  · rw [Multiset.coe_eq_coe.2 hb, ← Multiset.coe_add, hab, add_assoc]
  · intro w hw
    rcases Multiset.mem_add.1 hw with hw | hw
    · exact hnew w (Multiset.mem_coe.1 hw)
    · exact hbelow w hw

/-- A request for a child, or to drop visits, leaves visits of children and of what was pending. -/
theorem Leaves.schedule (ha : Leaves n pending a) {r : Request ι}
    (hr : ∀ input, r ≠ .again input) : Leaves n pending (v.schedule n a r) := by
  cases r with
  | immediate position input =>
      simp only [Visit.schedule]
      split
      · rename_i child hchild
        apply ha.add [v.toChild child input]
        · rw [Agenda.toList_pushFront]
          rfl
        · intro w hw
          obtain rfl := List.mem_singleton.1 hw
          exact List.mem_of_getElem? hchild
      · exact ha
  | deferred position input =>
      simp only [Visit.schedule]
      split
      · rename_i child hchild
        apply ha.add [v.toChild child input]
        · rw [Agenda.toList_pushBack]
          exact List.perm_append_comm
        · intro w hw
          obtain rfl := List.mem_singleton.1 hw
          exact List.mem_of_getElem? hchild
      · exact ha
  | children input =>
      apply ha.add _ (.of_eq (v.toList_schedule_children n a input))
      intro w hw
      obtain ⟨child, hchild, rfl⟩ := List.mem_map.1 hw
      exact hchild
  | again input => exact absurd rfl (hr input)
  | forget position =>
      simp only [Visit.schedule]
      split
      · exact ⟨0, 0, rfl, Multiset.zero_le _, by simp⟩
      · exact ha

/-- Requests other than for the node itself leave visits of children and of what was pending. -/
theorem Leaves.scheduleAll (ha : Leaves n pending a)
    (hr : ∀ input, .again input ∉ requests) :
    Leaves n pending (requests.foldl (v.schedule n) a) := by
  induction requests generalizing a with
  | nil => exact ha
  | cons r requests ih =>
      apply ih
      · apply ha.schedule
        rintro input rfl
        exact hr input List.mem_cons_self
      · intro input hmem
        exact hr input (List.mem_cons_of_mem _ hmem)

end Visit

namespace Graph

variable {g : Graph} {visitor : Visitor σ ι}

/-- A visit that leaves visits of children has less work behind it. -/
theorem descends_of_leaves {v : Visit ι} {n : Node} {agenda rest next : Agenda (Visit ι)}
    (hpop : agenda.pop? = some (v, rest)) (hn : g.node? v.node = some n)
    (hnext : Visit.Leaves n ↑rest.toList next) :
    g.Descends ↑(next.toList.map Visit.node) ↑(agenda.toList.map Visit.node) := by
  obtain ⟨below, kept, hlist, hkept, hbelow⟩ := hnext
  -- what is neither kept nor new was forgotten
  obtain ⟨dropped, hdropped⟩ := Multiset.le_iff_exists_add.1 hkept
  refine ⟨v.node, below.map Visit.node, kept.map Visit.node, dropped.map Visit.node, ?_, ?_, ?_⟩
  · rw [Agenda.toList_of_pop? hpop, ← Multiset.map_add, ← hdropped]
    rfl
  · rw [← Multiset.map_coe, hlist, Multiset.map_add]
  · intro c hc
    obtain ⟨w, hw, rfl⟩ := Multiset.mem_map.1 hc
    rw [mem_edges_iff, childrenOf, hn]
    exact hbelow w hw

/-- The rest of a walk that only goes down ends. -/
theorem Ordered.exists_walkOn_ends (hg : g.Ordered)
    (hdown : ∀ s v n input, .again input ∉ (visitor s v n).2) (agenda : Agenda (Visit ι))
    (visits : ℕ) (state : σ) :
    ∃ fuel, (g.walkOn visitor fuel agenda visits state).ending ≠ .outOfFuel := by
  induction hwork : (↑(agenda.toList.map Visit.node) : Multiset Handle) using
    hg.wellFounded_descends.induction generalizing agenda visits state with
  | _ work ih =>
  subst hwork
  cases hpop : agenda.pop? with
  | none => exact ⟨0, by simp [walkOn, hpop]⟩
  | some next =>
      obtain ⟨v, rest⟩ := next
      cases hn : g.node? v.node with
      | none => exact ⟨1, by simp [walkOn, hpop, hn]⟩
      | some n =>
          have hrest : Visit.Leaves n ↑rest.toList rest := ⟨0, _, by simp, le_rfl, by simp⟩
          have hnext := hrest.scheduleAll (v := v) (hdown state v n)
          have hless := descends_of_leaves hpop hn hnext
          obtain ⟨fuel, hfuel⟩ := ih _ hless _ (visits + 1) (visitor state v n).1 rfl
          refine ⟨fuel + 1, ?_⟩
          simpa only [walkOn, hpop, hn] using hfuel

/-- **A walk that only goes down ends.** -/
theorem Ordered.exists_walk_ends (hg : g.Ordered)
    (hdown : ∀ s v n input, .again input ∉ (visitor s v n).2) (start : Handle) (input : ι)
    (state : σ) : ∃ fuel, (g.walk fuel start input visitor state).ending ≠ .outOfFuel :=
  hg.exists_walkOn_ends hdown _ 0 state

end Graph

end SharedExpr
