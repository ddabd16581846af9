import SharedExpr.Proofs.Walk.Delivery
import SharedExpr.Walk.Basic

/-!
# The log of a walk

Everything that a visitor asks for comes to three things that are done with the agenda: a visit is
put in front, a visit is put at the end, the agenda is cleared. So a walk can be followed on the
list of what is pending, and a visitor can keep a log of it without knowing the agenda.

* `Visit.events` — what a request comes to; `Visit.toList_scheduleAll` — the requests of a visit do
  this to the agenda. `Visit.asked` — the visits that are scheduled.
* `Graph.Leads` — some rounds of a walk; `Graph.exists_leads_of_cons` — one of them, on lists;
  `Graph.EndsWith` — where there are no more.
* `Visitor.logging`, `Graph.walkLog` — the visitor that keeps a log besides, and the log of a walk.
  **Keeping it does not change the walk** (`Graph.map_walk_logging`).
* `Graph.exists_pending_of_walkOn`, `Graph.exists_pending_of_walk` — what each visit preserves, of
  the visitor's state or of the log, holds at the end of a walk, of what is pending then.
-/

namespace SharedExpr

variable {σ ι : Type}

/-- The next item of an agenda is the first of the list. -/
theorem Agenda.exists_pop?_of_cons {α : Type} {a : Agenda α} {x : α} {rest : List α}
    (ha : a.toList = x :: rest) : ∃ b, a.pop? = some (x, b) ∧ b.toList = rest := by
  cases hpop : a.pop? with
  | none => simp [pop?_eq_none_iff.1 hpop] at ha
  | some next =>
      obtain ⟨y, b⟩ := next
      obtain ⟨rfl, rfl⟩ := List.cons.inj ((toList_of_pop? hpop).symm.trans ha)
      exact ⟨b, rfl, rfl⟩

namespace Visit

/-- What a request during a visit comes to, in order. All children are put in front one by one, from
the last to the first. -/
def events (v : Visit ι) (n : Node) : Request ι → List (Agenda.Event (Visit ι))
  | .immediate position input =>
    (n.children[position]?).toList.map fun child => .front (v.toChild child input)
  | .deferred position input =>
    (n.children[position]?).toList.map fun child => .back (v.toChild child input)
  | .children input => n.children.reverse.map fun child => .front (v.toChild child input)
  | .again input => [.front ⟨v.node, v.parent, input⟩]
  | .forget position => if position < n.children.length then [.cleared] else []

/-- The visits that are scheduled by the requests of a visit, in order. -/
def asked (v : Visit ι) (n : Node) (requests : List (Request ι)) : List (Visit ι) :=
  (requests.flatMap (v.events n)).filterMap Agenda.Event.put?

variable {v w : Visit ι} {n : Node} {requests : List (Request ι)} {e : Agenda.Event (Visit ι)}

/-- Children are put in front in order. -/
theorem foldl_apply_children (v : Visit ι) (n : Node) (input : ι) (items : List (Visit ι)) :
    (v.events n (.children input)).foldl Agenda.Event.apply items =
      n.children.map (fun child => v.toChild child input) ++ items := by
  simp only [events, List.foldl_map, List.foldl_reverse, Agenda.Event.apply,
    List.foldr_cons_eq_append]

/-- A request does to the agenda what its events do to the pending visits. -/
theorem toList_schedule (v : Visit ι) (n : Node) (a : Agenda (Visit ι)) (r : Request ι) :
    (v.schedule n a r).toList = (v.events n r).foldl Agenda.Event.apply a.toList := by
  cases r with
  | immediate position input =>
      cases h : n.children[position]? <;>
        simp [schedule, events, h, Agenda.Event.apply]
  | deferred position input =>
      cases h : n.children[position]? <;>
        simp [schedule, events, h, Agenda.Event.apply]
  | children input => rw [toList_schedule_children, foldl_apply_children]
  | again input => simp [schedule, events, Agenda.Event.apply]
  | forget position =>
      by_cases h : position < n.children.length <;>
        simp [schedule, events, h, Agenda.Event.apply]

/-- **What the requests of a visit do to the agenda.** -/
theorem toList_scheduleAll (v : Visit ι) (n : Node) (a : Agenda (Visit ι))
    (requests : List (Request ι)) :
    (requests.foldl (v.schedule n) a).toList =
      (requests.flatMap (v.events n)).foldl Agenda.Event.apply a.toList := by
  induction requests generalizing a with
  | nil => rfl
  | cons r requests ih =>
      rw [List.foldl_cons, ih, toList_schedule, List.flatMap_cons, List.foldl_append]

/-- Nothing is taken off the agenda by requests. -/
theorem taken?_of_mem_events (he : e ∈ requests.flatMap (v.events n)) : e.taken? = none := by
  obtain ⟨r, -, he⟩ := List.mem_flatMap.1 he
  cases r <;> simp only [events, List.mem_map, List.mem_singleton, List.mem_ite_nil_right] at he
  case immediate | deferred | children =>
    obtain ⟨_, -, rfl⟩ := he
    rfl
  case again =>
    rw [he]
    rfl
  case forget =>
    rw [he.2]
    rfl

/-- A visit that is scheduled during a visit is of a child of the visited node, or of this node
again and then as if for the same parent. -/
theorem of_mem_events {r : Request ι} (he : e ∈ v.events n r) (hw : e.put? = some w) :
    (w.node ∈ n.children ∧ w.parent = some v.node) ∨ (w.node = v.node ∧ w.parent = v.parent) := by
  cases r <;> simp only [events, List.mem_map, List.mem_singleton, List.mem_ite_nil_right,
    Option.mem_toList, List.mem_reverse] at he
  case immediate | deferred =>
    obtain ⟨c, hc, rfl⟩ := he
    cases hw
    exact Or.inl ⟨List.mem_of_getElem? hc, rfl⟩
  case children =>
    obtain ⟨c, hc, rfl⟩ := he
    cases hw
    exact Or.inl ⟨hc, rfl⟩
  case again =>
    subst he
    cases hw
    exact Or.inr ⟨rfl, rfl⟩
  case forget =>
    rw [he.2] at hw
    cases hw

end Visit

/-- The visitor that keeps a log besides its state: which visit it got, and what its requests came
to. -/
def Visitor.logging (visitor : Visitor σ ι) :
    Visitor (σ × List (Agenda.Event (Visit ι))) ι := fun s v n =>
  let (state, requests) := visitor s.1 v n
  ((state, s.2 ++ .taken v :: requests.flatMap (v.events n)), requests)

namespace Graph

variable {g : Graph} {visitor : Visitor σ ι} {agenda a b : Agenda (Visit ι)} {v : Visit ι}
  {n : Node} {rest : List (Visit ι)} {fuel visits : ℕ} {state : σ} {start : Handle} {input : ι}

/-! ### A walk on lists -/

/-- A walk with nothing pending is finished. -/
theorem walkOn_of_nil (ha : a.toList = []) :
    g.walkOn visitor fuel a visits state = ⟨state, visits, .finished⟩ := by
  cases fuel <;> simp [walkOn, Agenda.pop?_eq_none_iff.2 ha]

/-- A walk fails if the next visit is of a node that is not live. -/
theorem walkOn_of_dead (ha : a.toList = v :: rest) (hv : g.node? v.node = none) :
    g.walkOn visitor (fuel + 1) a visits state = ⟨state, visits, .failed v.fault⟩ := by
  obtain ⟨b, hpop, -⟩ := Agenda.exists_pop?_of_cons ha
  simp [walkOn, hpop, hv]

/-- A walk that goes on from one agenda and state goes on, some visits later, from another. -/
def Leads (g : Graph) (visitor : Visitor σ ι) (a : Agenda (Visit ι)) (s : σ) (made : ℕ)
    (b : Agenda (Visit ι)) (t : σ) : Prop :=
  ∀ fuel visits, g.walkOn visitor (made + fuel) a visits s =
    g.walkOn visitor fuel b (visits + made) t

/-- Without a visit a walk goes on from where it is. -/
theorem Leads.refl : g.Leads visitor a state 0 a state := by
  intro fuel visits
  rw [Nat.zero_add, Nat.add_zero]

/-- A walk goes on one part after the other. -/
theorem Leads.trans {c : Agenda (Visit ι)} {s t u : σ} {k l : ℕ}
    (hab : g.Leads visitor a s k b t) (hbc : g.Leads visitor b t l c u) :
    g.Leads visitor a s (k + l) c u := by
  intro fuel visits
  rw [Nat.add_assoc, hab, hbc, Nat.add_assoc]

/-- One round of a walk. -/
theorem exists_leads_of_cons (visitor : Visitor σ ι) (state : σ) (ha : a.toList = v :: rest)
    (hn : g.node? v.node = some n) :
    ∃ b, b.toList =
        ((visitor state v n).2.flatMap (v.events n)).foldl Agenda.Event.apply rest ∧
      g.Leads visitor a state 1 b (visitor state v n).1 := by
  obtain ⟨b, hpop, rfl⟩ := Agenda.exists_pop?_of_cons ha
  refine ⟨_, v.toList_scheduleAll n b _, ?_⟩
  intro fuel visits
  rw [Nat.add_comm]
  simp [walkOn, hpop, hn]

/-- What may be pending when a walk ends. -/
inductive EndsWith (g : Graph) : List (Visit ι) → Ending → Prop
  /-- Nothing is. -/
  | finished : EndsWith g [] .finished
  /-- The next visit is of a node that is not live. -/
  | failed {v : Visit ι} {rest : List (Visit ι)} (hv : g.node? v.node = none) :
      EndsWith g (v :: rest) (.failed v.fault)
  /-- There are visits to make. -/
  | outOfFuel {items : List (Visit ι)} : EndsWith g items .outOfFuel

/-- A walk that has got to its end. -/
theorem Leads.walkOn_eq {s t : σ} {k : ℕ} {ending : Ending} (hab : g.Leads visitor a s k b t)
    (hb : g.EndsWith b.toList ending) (hne : ending ≠ .outOfFuel) (hfuel : k < fuel) :
    g.walkOn visitor fuel a visits s = ⟨t, visits + k, ending⟩ := by
  obtain ⟨more, rfl⟩ := Nat.exists_eq_add_of_lt hfuel
  rw [Nat.add_assoc, hab]
  generalize hitems : b.toList = items at hb
  cases hb with
  | finished => exact walkOn_of_nil hitems
  | failed hv => exact walkOn_of_dead hitems hv
  | outOfFuel => exact absurd rfl hne

/-! ### A visitor with a log -/

/-- The log of a walk, which begins with the visit of the start that the walk itself schedules. -/
def walkLog (g : Graph) (fuel : ℕ) (start : Handle) (input : ι) (visitor : Visitor σ ι)
    (state : σ) : List (Agenda.Event (Visit ι)) :=
  (g.walk fuel start input visitor.logging (state, [.front ⟨start, none, input⟩])).state.2

/-- Keeping a log makes no difference to a walk. -/
theorem map_walkOn_logging (log : List (Agenda.Event (Visit ι))) :
    (g.walkOn visitor.logging fuel agenda visits (state, log)).map Prod.fst =
      g.walkOn visitor fuel agenda visits state := by
  induction fuel generalizing agenda visits state log with
  | zero =>
      rw [walkOn, walkOn]
      cases agenda.pop? <;> rfl
  | succ fuel ih =>
      rw [walkOn, walkOn]
      cases agenda.pop? with
      | none => rfl
      | some next =>
          dsimp only
          cases g.node? next.1.node with
          | none => rfl
          | some n => exact ih _

/-- **Keeping a log does not change a walk.** -/
theorem map_walk_logging (g : Graph) (fuel : ℕ) (start : Handle) (input : ι)
    (visitor : Visitor σ ι) (state : σ) (log : List (Agenda.Event (Visit ι))) :
    (g.walk fuel start input visitor.logging (state, log)).map Prod.fst =
      g.walk fuel start input visitor state :=
  map_walkOn_logging log

/-- What a visit preserves of the state, the number of visits and the pending visits holds at the
end of a walk. -/
theorem exists_pending_of_walkOn {P : σ → ℕ → List (Visit ι) → Prop}
    (hP : ∀ state visits v n items, P state visits (v :: items) → g.node? v.node = some n →
      P (visitor state v n).1 (visits + 1)
        (((visitor state v n).2.flatMap (v.events n)).foldl Agenda.Event.apply items))
    {w : Walked σ} (hw : g.walkOn visitor fuel agenda visits state = w)
    (h : P state visits agenda.toList) :
    ∃ items, P w.state w.visits items ∧ g.EndsWith items w.ending := by
  induction fuel generalizing agenda visits state with
  | zero =>
      rw [walkOn] at hw
      cases hpop : agenda.pop? with
      | none =>
          rw [hpop] at hw
          subst hw
          exact ⟨[], Agenda.pop?_eq_none_iff.1 hpop ▸ h, .finished⟩
      | some next =>
          rw [hpop] at hw
          subst hw
          exact ⟨_, h, .outOfFuel⟩
  | succ fuel ih =>
      cases hlist : agenda.toList with
      | nil =>
          rw [walkOn_of_nil hlist] at hw
          subst hw
          exact ⟨[], hlist ▸ h, .finished⟩
      | cons v rest =>
          rw [hlist] at h
          cases hn : g.node? v.node with
          | none =>
              rw [walkOn_of_dead hlist hn] at hw
              subst hw
              exact ⟨_, h, .failed hn⟩
          | some n =>
              obtain ⟨b, hb, hround⟩ := exists_leads_of_cons visitor state hlist hn
              rw [Nat.add_comm, hround] at hw
              exact ih hw (hb ▸ hP _ _ _ _ _ h hn)

/-- So what holds of the visit that a walk itself schedules, and is preserved by each visit, holds
at its end, by its log. -/
theorem exists_pending_of_walk {P : List (Agenda.Event (Visit ι)) → ℕ → List (Visit ι) → Prop}
    (hP : ∀ log visits v n items state, P log visits (v :: items) → g.node? v.node = some n →
      P (log ++ .taken v :: (visitor state v n).2.flatMap (v.events n)) (visits + 1)
        (((visitor state v n).2.flatMap (v.events n)).foldl Agenda.Event.apply items))
    (fuel : ℕ) (state : σ) (h : P [.front ⟨start, none, input⟩] 0 [⟨start, none, input⟩]) :
    ∃ items, P (g.walkLog fuel start input visitor state)
        (g.walk fuel start input visitor state).visits items ∧
      g.EndsWith items (g.walk fuel start input visitor state).ending := by
  have hw : g.walkOn visitor.logging fuel (Agenda.empty.pushFront ⟨start, none, input⟩) 0
      (state, [.front ⟨start, none, input⟩]) =
        g.walk fuel start input visitor.logging (state, [.front ⟨start, none, input⟩]) := rfl
  rw [← map_walk_logging g fuel start input visitor state [.front ⟨start, none, input⟩]]
  exact exists_pending_of_walkOn (P := fun s => P s.2)
    (fun s visits v n items => hP s.2 visits v n items s.1) hw h

end Graph

end SharedExpr
