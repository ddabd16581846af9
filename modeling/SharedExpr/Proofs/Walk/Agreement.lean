import SharedExpr.Proofs.Graph.Agreement
import SharedExpr.Walk.Basic

/-!
# Walks below a node

Whatever a visitor asks for, the visits that it gets are of the node it is at, of children of that
node or of nodes that were pending. So a walk never leaves what its start reaches.

* `Visit.mem_scheduleAll` — the visits on the agenda after the requests of a visit.
* `Graph.walk_of_agreesBelow` — **a walk is the same in graphs that agree below its start**, for
  every visitor and with any fuel.
* `Graph.Whole.walk_ending_ne_failed`, `Graph.Whole.walk_finished` — no walk fails if whatever its
  start reaches is live, so that it is carried through with enough fuel.
* `Graph.walk_eq_of_ending` — two walks that do not run out of fuel are the same, however much they
  were given.
-/

namespace SharedExpr

variable {σ ι : Type}

/-- What comes next is on the agenda. -/
theorem Agenda.mem_toList_of_pop? {α : Type} {a b : Agenda α} {x : α}
    (h : a.pop? = some (x, b)) : x ∈ a.toList := by
  rw [toList_of_pop? h]
  exact List.mem_cons_self

namespace Visit

variable {v w : Visit ι} {n : Node} {a : Agenda (Visit ι)} {r : Request ι}
  {requests : List (Request ι)}

/-- A visit on the agenda after a request was there before, or is of the visited node or of one of
its children. -/
theorem mem_schedule (hw : w ∈ (v.schedule n a r).toList) :
    w ∈ a.toList ∨ w.node = v.node ∨ w.node ∈ n.children := by
  cases r with
  | immediate position input =>
      simp only [schedule] at hw
      split at hw
      · rename_i child hchild
        rcases List.mem_cons.1 (a.toList_pushFront _ ▸ hw) with rfl | hw
        · exact Or.inr (Or.inr (List.mem_of_getElem? hchild))
        · exact Or.inl hw
      · exact Or.inl hw
  | deferred position input =>
      simp only [schedule] at hw
      split at hw
      · rename_i child hchild
        rw [Agenda.toList_pushBack, List.mem_append, List.mem_singleton] at hw
        rcases hw with hw | rfl
        · exact Or.inl hw
        · exact Or.inr (Or.inr (List.mem_of_getElem? hchild))
      · exact Or.inl hw
  | children input =>
      rw [toList_schedule_children, List.mem_append, List.mem_map] at hw
      rcases hw with ⟨child, hchild, rfl⟩ | hw
      · exact Or.inr (Or.inr hchild)
      · exact Or.inl hw
  | again input =>
      rcases List.mem_cons.1 (a.toList_pushFront _ ▸ hw) with rfl | hw
      · exact Or.inr (Or.inl rfl)
      · exact Or.inl hw
  | forget position =>
      simp only [schedule] at hw
      split at hw
      · cases hw
      · exact Or.inl hw

/-- What is on the agenda after a visit was there before, or is a visit of the node or of a
child. -/
theorem mem_scheduleAll (hw : w ∈ (requests.foldl (v.schedule n) a).toList) :
    w ∈ a.toList ∨ w.node = v.node ∨ w.node ∈ n.children := by
  induction requests generalizing a with
  | nil => exact Or.inl hw
  | cons r requests ih =>
      rcases ih hw with hw | hw
      · exact mem_schedule hw
      · exact Or.inr hw

end Visit

namespace Graph

variable {g k : Graph} {visitor : Visitor σ ι} {start : Handle} {agenda rest : Agenda (Visit ι)}
  {v w : Visit ι} {n : Node} {fuel fuel' visits : ℕ} {state : σ} {input : ι}

/-- What holds of the pending nodes and is handed down to children holds of the nodes that are
pending after a visit. -/
theorem forall_mem_scheduleAll {P : Handle → Prop} (hP : ∀ w ∈ agenda.toList, P w.node)
    (hdown : ∀ c ∈ n.children, P v.node → P c) (hpop : agenda.pop? = some (v, rest))
    (requests : List (Request ι)) :
    ∀ w ∈ (requests.foldl (v.schedule n) rest).toList, P w.node := by
  rw [Agenda.toList_of_pop? hpop, List.forall_mem_cons] at hP
  obtain ⟨hv, hrest⟩ := hP
  intro w hw
  rcases Visit.mem_scheduleAll hw with hw | hw | hw
  · exact hrest w hw
  · exact hw ▸ hv
  · exact hdown _ hw hv

/-- The rest of a walk is the same in graphs that agree below the pending nodes. -/
theorem walkOn_of_agreesBelow (hk : ∀ w ∈ agenda.toList, g.AgreesBelow k w.node) :
    k.walkOn visitor fuel agenda visits state = g.walkOn visitor fuel agenda visits state := by
  induction fuel generalizing agenda visits state with
  | zero => rfl
  | succ fuel ih =>
      rw [walkOn, walkOn]
      cases hpop : agenda.pop? with
      | none => rfl
      | some next =>
          obtain ⟨v, rest⟩ := next
          simp only [(hk v (Agenda.mem_toList_of_pop? hpop)).node?_eq]
          cases hn : g.node? v.node with
          | none => rfl
          | some n =>
              apply ih
              exact forall_mem_scheduleAll hk (fun c hc hp => hp.of_child hn hc) hpop _

/-- **A walk is the same in graphs that agree below its start.** -/
theorem walk_of_agreesBelow (hk : g.AgreesBelow k start) :
    k.walk fuel start input visitor state = g.walk fuel start input visitor state := by
  apply walkOn_of_agreesBelow
  intro w hw
  obtain rfl := List.mem_singleton.1 hw
  exact hk

/-- A walk does not fail if all is live below what is pending. -/
theorem walkOn_ending_ne_failed (hwhole : ∀ w ∈ agenda.toList, g.Whole w.node) (fault : Fault) :
    (g.walkOn visitor fuel agenda visits state).ending ≠ .failed fault := by
  induction fuel generalizing agenda visits state with
  | zero =>
      rw [walkOn]
      cases agenda.pop? <;> simp
  | succ fuel ih =>
      rw [walkOn]
      cases hpop : agenda.pop? with
      | none => simp
      | some next =>
          obtain ⟨v, rest⟩ := next
          obtain ⟨n, hn⟩ := (hwhole v (Agenda.mem_toList_of_pop? hpop)).exists_node?
          simp only [hn]
          apply ih
          exact forall_mem_scheduleAll hwhole (fun c hc hp => hp.of_child hn hc) hpop _

/-- No walk fails if whatever its start reaches is live. -/
theorem Whole.walk_ending_ne_failed (hwhole : g.Whole start) (fault : Fault) :
    (g.walk fuel start input visitor state).ending ≠ .failed fault := by
  apply walkOn_ending_ne_failed
  intro w hw
  obtain rfl := List.mem_singleton.1 hw
  exact hwhole

/-- Below a whole node a walk with enough fuel is carried through. -/
theorem Whole.walk_finished (hwhole : g.Whole start)
    (hfuel : (g.walk fuel start input visitor state).ending ≠ .outOfFuel) :
    (g.walk fuel start input visitor state).ending = .finished := by
  cases hend : (g.walk fuel start input visitor state).ending with
  | finished => rfl
  | failed fault => exact absurd hend (hwhole.walk_ending_ne_failed fault)
  | outOfFuel => exact absurd hend hfuel

/-- Two walks that do not run out of fuel are the same. -/
theorem walk_eq_of_ending (h : (g.walk fuel start input visitor state).ending ≠ .outOfFuel)
    (h' : (g.walk fuel' start input visitor state).ending ≠ .outOfFuel) :
    g.walk fuel start input visitor state = g.walk fuel' start input visitor state := by
  rcases Nat.le_total fuel fuel' with hle | hle
  · exact (walkOn_mono g visitor hle _ _ _ h).symm
  · exact walkOn_mono g visitor hle _ _ _ h'

end Graph

end SharedExpr
