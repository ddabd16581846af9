import SharedExpr.Proofs.History.Expressions
import SharedExpr.Proofs.Walk.Log

/-!
# The discipline of walks

A visitor may ask for anything: visits at either end of the agenda, visits of the node it is at, and
that everything pending be forgotten. Whatever it asks for, the walk only goes down from its start,
along edges of nodes that it has visited, and each visit that was scheduled is made once, unless it
was forgotten while it was pending.

* `Agenda.During` — what was taken last before a position of a log.
* `Graph.Founded` — where a visit comes from: it is of the start, or of a child of a node that was
  visited, and was scheduled during a visit of that node or of the child itself.
* `Graph.Kept` — the invariant of a walk that keeps a log.
* `Graph.Disciplined`, `Graph.walk_disciplined` — **all this at the end of every walk**, however it
  ends.
-/

namespace SharedExpr

variable {σ ι : Type}

/-! ### Before and during -/

namespace Agenda

variable {α : Type} {log : List (Event α)} {items : List α} {k m : ℕ} {x u : α}

/-- The item is the last one that was taken before position `k` of the log. -/
def During (log : List (Event α)) (k : ℕ) (u : α) : Prop :=
  ∃ j < k, log[j]? = some (.taken u) ∧ ∀ i, j < i → i ≤ k → ∀ w, log[i]? ≠ some (.taken w)

/-- What is on an agenda was put there. -/
theorem Logged.exists_putAt (hlog : Logged log items) (hx : x ∈ items) : ∃ k, PutAt log k x := by
  obtain ⟨-, -, kept, -, hitems⟩ := hlog.exists_settlement
  obtain ⟨i, hi, rfl⟩ := List.mem_iff_getElem.1 hx
  exact ⟨_, hitems.get (hitems.length_eq ▸ hi) hi⟩

/-- What is taken off an agenda was put there before. -/
theorem Logged.exists_delivers (hlog : Logged log items) (hm : log[m]? = some (.taken x)) :
    ∃ k, Delivers log k m := by
  obtain ⟨made, dropped, kept, hsettled, -⟩ := hlog.exists_settlement
  have hmem : m ∈ takes log := by
    obtain ⟨hlt, hx⟩ := List.getElem?_eq_some_iff.1 hm
    exact List.mem_findIdxs_iff_exists_getElem_pos.2 ⟨hlt, by rw [hx]; rfl⟩
  obtain ⟨i, hi, rfl⟩ := List.mem_iff_getElem.1 hmem
  exact ⟨_, hsettled.delivered.get (hsettled.delivered.length_eq ▸ hi) hi⟩

/-- The item taken last before a position stays the same when a log grows. -/
theorem During.append (hk : During log k u) (hlt : k < log.length) (es : List (Event α)) :
    During (log ++ es) k u := by
  obtain ⟨j, hjk, hj, hlast⟩ := hk
  refine ⟨j, hjk, getElem?_append_of_eq_some hj es, ?_⟩
  intro i hji hik w
  rw [List.getElem?_append_left (hik.trans_lt hlt)]
  exact hlast i hji hik w

/-- What is put on the agenda after an item was taken, with nothing else taken in between. -/
theorem PutAt.of_append_cons {es : List (Event α)} (hes : ∀ e ∈ es, e.taken? = none)
    (hk : PutAt (log ++ .taken u :: es) k x) :
    PutAt log k x ∨
      log.length < k ∧ During (log ++ .taken u :: es) k u ∧ ∃ e ∈ es, e.put? = some x := by
  obtain ⟨e, he, hput⟩ := hk
  rcases Nat.lt_trichotomy k log.length with hlt | rfl | hlt
  · rw [List.getElem?_append_left hlt] at he
    exact Or.inl ⟨e, he, hput⟩
  · rw [List.getElem?_append_right le_rfl, Nat.sub_self, List.getElem?_cons_zero,
      Option.some_inj] at he
    subst he
    cases hput
  · -- position `k` is among the events that follow
    have hafter : ∀ i, log.length < i →
        (log ++ .taken u :: es)[i]? = es[i - log.length - 1]? := by
      intro i hi
      obtain ⟨d, rfl⟩ := Nat.exists_eq_add_of_lt hi
      rw [List.getElem?_append_right (by omega)]
      simp [Nat.add_assoc]
    refine Or.inr ⟨hlt, ⟨log.length, hlt, by simp, ?_⟩, e, ?_, hput⟩
    · intro i hi _ w htaken
      rw [hafter i hi] at htaken
      cases hes _ (List.mem_of_getElem? htaken)
    · rw [hafter k hlt] at he
      exact List.mem_of_getElem? he

end Agenda

namespace Graph

open Agenda

variable {g : Graph} {visitor : Visitor σ ι} {start p : Handle} {v : Visit ι} {n : Node}
  {log : List (Agenda.Event (Visit ι))} {items : List (Visit ι)} {k m visits : ℕ}

/-- The node was visited before position `k` of the log. -/
def VisitedBefore (log : List (Agenda.Event (Visit ι))) (k : ℕ) (p : Handle) : Prop :=
  ∃ j < k, ∃ u, log[j]? = some (.taken u) ∧ u.node = p

/-- Where the visit comes from that is scheduled at position `k` of the log of a walk: without a
parent it is of the start of the walk; with a parent it is of a child of this node, which was
visited before, and it was scheduled during a visit of the parent or of the child. -/
def Founded (g : Graph) (start : Handle) (log : List (Agenda.Event (Visit ι))) (k : ℕ)
    (v : Visit ι) : Prop :=
  (v.parent = none → v.node = start) ∧
    ∀ p, v.parent = some p → v.node ∈ g.childrenOf p ∧ VisitedBefore log k p ∧
      ∃ u, During log k u ∧ (u.node = p ∨ u.node = v.node)

/-- What was visited before a position stays so when a log grows. -/
theorem VisitedBefore.append (hp : VisitedBefore log k p) (es : List (Agenda.Event (Visit ι))) :
    VisitedBefore (log ++ es) k p := by
  obtain ⟨j, hjk, u, hu, rfl⟩ := hp
  exact ⟨j, hjk, u, getElem?_append_of_eq_some hu es, rfl⟩

/-- What was visited before a position was visited before a later one. -/
theorem VisitedBefore.mono (hp : VisitedBefore log k p) (hkm : k ≤ m) :
    VisitedBefore log m p := by
  obtain ⟨j, hjk, hu⟩ := hp
  exact ⟨j, hjk.trans_le hkm, hu⟩

/-- A visit stays founded when a log grows. -/
theorem Founded.append (hv : g.Founded start log k v) (hk : k < log.length)
    (es : List (Agenda.Event (Visit ι))) : g.Founded start (log ++ es) k v := by
  refine ⟨hv.1, ?_⟩
  intro p hp
  obtain ⟨hc, hvisited, u, hu, hnode⟩ := hv.2 p hp
  exact ⟨hc, hvisited.append es, u, hu.append hk es, hnode⟩

/-! ### The invariant -/

/-- What holds of the log, of the number of visits and of the pending visits throughout a walk. -/
structure Kept (g : Graph) (first : Visit ι) (log : List (Agenda.Event (Visit ι))) (visits : ℕ)
    (items : List (Visit ι)) : Prop where
  /-- The log begins with the visit that the walk itself schedules. -/
  head : log.head? = some (.front first)
  /-- It is a log of the agenda. -/
  logged : Logged log items
  /-- It tells of as many visits as were made. -/
  visits : (takes log).length = visits
  /-- Whatever is scheduled comes from somewhere. -/
  founded : ∀ k v, PutAt log k v → g.Founded first.node log k v

/-- At the start nothing but the first visit is scheduled. -/
theorem kept_first (g : Graph) (start : Handle) (input : ι) :
    g.Kept ⟨start, none, input⟩ [.front ⟨start, none, input⟩] 0 [⟨start, none, input⟩] where
  head := rfl
  logged := .other (.front _) rfl .nil
  visits := rfl
  founded := by
    intro k v hk
    obtain rfl : v = ⟨start, none, input⟩ := by
      rw [← List.nil_append [_]] at hk
      rcases putAt_concat_iff.1 hk with ⟨_, hnil, -⟩ | ⟨-, hput⟩
      · cases hnil
      · exact (Option.some_inj.1 hput).symm
    exact ⟨fun _ => rfl, by simp⟩

/-- A visit that is scheduled during a visit comes from there. -/
theorem Founded.of_mem_events {e : Agenda.Event (Visit ι)} {w : Visit ι} {j : ℕ} {r : Request ι}
    (hv : g.Founded start log j v) (hn : g.node? v.node = some n) (hjk : j ≤ k)
    (hk : During log k v) (he : e ∈ v.events n r) (hw : e.put? = some w) :
    g.Founded start log k w := by
  rcases Visit.of_mem_events he hw with ⟨hchild, hparent⟩ | ⟨hnode, hparent⟩
  · -- a child of the visited node
    refine ⟨by simp [hparent], ?_⟩
    intro p hp
    obtain rfl : v.node = p := Option.some_inj.1 (hparent.symm.trans hp)
    have ⟨i, hik, hi, _⟩ := hk
    refine ⟨?_, ⟨i, hik, v, hi, rfl⟩, v, hk, Or.inl rfl⟩
    rwa [childrenOf, hn]
  · -- the visited node again, which comes from where the visit came from
    refine ⟨fun hnone => hnode.trans (hv.1 (hparent ▸ hnone)), ?_⟩
    intro p hp
    obtain ⟨hc, hvisited, -⟩ := hv.2 p (hparent ▸ hp)
    exact ⟨hnode ▸ hc, hvisited.mono hjk, v, hk, Or.inr hnode.symm⟩

/-- A visit keeps the invariant. -/
theorem Kept.visit {first : Visit ι} (h : g.Kept first log visits (v :: items))
    (hn : g.node? v.node = some n) (requests : List (Request ι)) :
    g.Kept first (log ++ .taken v :: requests.flatMap (v.events n)) (visits + 1)
      ((requests.flatMap (v.events n)).foldl Event.apply items) := by
  have hes : ∀ e ∈ requests.flatMap (v.events n), e.taken? = none :=
    fun _ => Visit.taken?_of_mem_events
  refine ⟨?_, ?_, ?_, ?_⟩
  · rw [List.head?_append, h.head, Option.some_or]
  · rw [List.append_cons]
    exact h.logged.take.others hes
  · have hnone : (requests.flatMap (v.events n)).countP (fun e => e.taken?.isSome) = 0 := by
      rw [List.countP_eq_zero]
      intro e he
      simp [hes e he]
    rw [← h.visits, takes, takes, List.length_findIdxs, List.length_findIdxs, List.countP_append,
      List.countP_cons, hnone]
    simp [Event.taken?]
  · intro k w hk
    rcases hk.of_append_cons hes with hk | ⟨hlt, hduring, e, he, hput⟩
    · exact (h.founded k w hk).append hk.lt _
    · obtain ⟨r, -, he⟩ := List.mem_flatMap.1 he
      -- the visit that is made was scheduled before, and comes from somewhere itself
      obtain ⟨j, hj⟩ := h.logged.exists_putAt List.mem_cons_self
      have hv := (h.founded j v hj).append hj.lt (.taken v :: requests.flatMap (v.events n))
      exact hv.of_mem_events hn (hj.lt.trans hlt).le hduring he hput

/-- At the end of a walk that keeps a log the invariant holds of what is pending. -/
theorem exists_kept (g : Graph) (fuel : ℕ) (start : Handle) (input : ι) (visitor : Visitor σ ι)
    (state : σ) :
    ∃ items, g.Kept ⟨start, none, input⟩ (g.walkLog fuel start input visitor state)
        (g.walk fuel start input visitor state).visits items ∧
      g.EndsWith items (g.walk fuel start input visitor state).ending :=
  exists_pending_of_walk (fun _ _ _ _ _ _ h hn => h.visit hn _) fuel state
    (g.kept_first start input)

/-- Whatever is visited was scheduled before, and comes from somewhere. -/
theorem Kept.exists_founded {first : Visit ι} (h : g.Kept first log visits items)
    (hm : log[m]? = some (.taken v)) :
    ∃ k < m, PutAt log k v ∧ g.Founded first.node log k v := by
  obtain ⟨k, hkm, ⟨w, hput, htaken⟩, -⟩ := h.logged.exists_delivers hm
  obtain rfl : v = w := Event.taken.inj (Option.some_inj.1 (hm.symm.trans htaken))
  exact ⟨k, hkm, hput, h.founded k v hput⟩

/-- A walk that fails was about to make a visit of a node that is not live. -/
theorem Kept.exists_of_failed {first : Visit ι} {fault : Fault}
    (h : g.Kept first log visits items) (hends : g.EndsWith items (.failed fault)) :
    ∃ v, v.fault = fault ∧ ¬ g.contains v.node ∧
      ∃ k < log.length, g.Founded first.node log k v := by
  cases hends with
  | @failed v rest hv =>
      obtain ⟨k, hk⟩ := h.logged.exists_putAt List.mem_cons_self
      exact ⟨v, rfl, by simp [contains_iff_node?, hv], k, hk.lt, h.founded k v hk⟩

/-- A walk from a live node fails at an edge only. -/
theorem exists_danglingEdge_of_failed {fuel : ℕ} {input : ι} {state : σ} {fault : Fault}
    (hstart : g.contains start)
    (hfault : (g.walk fuel start input visitor state).ending = .failed fault) :
    ∃ p c, fault = .danglingEdge p c ∧ (p, c) ∈ g.edges ∧ ¬ g.contains c := by
  obtain ⟨items, hkept, hends⟩ := exists_kept g fuel start input visitor state
  obtain ⟨v, rfl, hdead, k, -, hnode, hfrom⟩ := hkept.exists_of_failed (hfault ▸ hends)
  cases hparent : v.parent with
  | none =>
      have hlive : v.node = start := hnode hparent
      exact absurd (hlive ▸ hstart) hdead
  | some p =>
      exact ⟨p, v.node, by simp [Visit.fault, hparent], mem_edges_iff.2 (hfrom p hparent).1, hdead⟩

/-! ### The end of a walk -/

/-- What is true of every walk, by its log. -/
structure Disciplined (g : Graph) (start : Handle) (input : ι) (w : Walked σ)
    (log : List (Agenda.Event (Visit ι))) : Prop where
  /-- The first thing in the log is the visit that the walk itself schedules. -/
  first : log.head? = some (.front ⟨start, none, input⟩)
  /-- The log tells of the visits that were made. -/
  visits : (takes log).length = w.visits
  /-- Only a start that is not live is an unknown node, and then nothing was visited. -/
  unknown : ∀ h, w.ending = .failed (.unknownNode h) →
    h = start ∧ ¬ g.contains start ∧ w.visits = 0
  /-- A visit without a parent is of the start. -/
  rootless : ∀ (m : ℕ) (v : Visit ι), log[m]? = some (.taken v) → v.parent = none → v.node = start
  /-- A visit with a parent is of a child of the parent, which was visited before; and it was
  scheduled, before, during a visit of the parent or of the child. -/
  down : ∀ (m : ℕ) (v : Visit ι) (p : Handle), log[m]? = some (.taken v) → v.parent = some p →
    v.node ∈ g.childrenOf p ∧ VisitedBefore log m p ∧
      ∃ k < m, PutAt log k v ∧ ∃ u, During log k u ∧ (u.node = p ∨ u.node = v.node)
  /-- A walk that fails after a visit meets a child that is not live, of a node that was visited. -/
  dangling : ∀ fault, w.ending = .failed fault → 0 < w.visits →
    ∃ p c, fault = .danglingEdge p c ∧ VisitedBefore log log.length p ∧ c ∈ g.childrenOf p ∧
      ¬ g.contains c
  /-- Each visit that was scheduled was made once, as it was scheduled, or the agenda was cleared
  while it was pending; or it is pending still, but not if the walk is finished. -/
  settled : ∃ made dropped kept, Settlement log made dropped kept ∧
    (w.ending = .finished →
      kept = [] ∧ w.visits + dropped.length = 1 + log.tail.countP fun e => e.put?.isSome)

/-- From a start that is not live nothing is visited. -/
theorem walk_visits_of_not_contains (hstart : ¬ g.contains start) (fuel : ℕ) (input : ι)
    (visitor : Visitor σ ι) (state : σ) :
    (g.walk fuel start input visitor state).visits = 0 := by
  cases fuel with
  | zero => rfl
  | succ fuel => rw [walk_of_not_contains hstart]

/-- The visits of the log are those that the walk itself and the visitor scheduled. -/
theorem Kept.length_puts {first : Visit ι} (h : g.Kept first log visits items) :
    (puts log).length = 1 + log.tail.countP fun e => e.put?.isSome := by
  obtain ⟨log, rfl⟩ := List.head?_eq_some_iff.1 h.head
  rw [puts, List.length_findIdxs, List.countP_cons, List.tail_cons, Nat.add_comm]
  rfl

/-- **Every walk is disciplined**, whatever its visitor asks for and however it ends. A walk keeps
its log without being changed by it, and fails at once if its start is not live. -/
theorem walk_disciplined (g : Graph) (fuel : ℕ) (start : Handle) (input : ι)
    (visitor : Visitor σ ι) (state : σ) :
    (g.walk fuel start input visitor.logging (state, [.front ⟨start, none, input⟩])).map Prod.fst =
      g.walk fuel start input visitor state ∧
    (¬ g.contains start →
      g.walk (fuel + 1) start input visitor state = ⟨state, 0, .failed (.unknownNode start)⟩) ∧
    g.Disciplined start input (g.walk fuel start input visitor state)
      (g.walkLog fuel start input visitor state) := by
  refine ⟨map_walk_logging g fuel start input visitor state _, fun hstart =>
    walk_of_not_contains hstart fuel input visitor state, ?_⟩
  have hzero (hstart : ¬ g.contains start) :=
    walk_visits_of_not_contains hstart fuel input visitor state
  obtain ⟨items, hkept, hends⟩ := exists_kept g fuel start input visitor state
  refine ⟨hkept.head, hkept.visits, ?unknown, ?rootless, ?down, ?dangling, ?settled⟩
  case unknown =>
    intro h hfault
    obtain ⟨v, hfault, hdead, k, -, hnode, -⟩ := hkept.exists_of_failed (hfault ▸ hends)
    cases hparent : v.parent with
    | some p => simp [Visit.fault, hparent] at hfault
    | none =>
        obtain rfl : v.node = h := by simpa [Visit.fault, hparent] using hfault
        have hstart : v.node = start := hnode hparent
        exact ⟨hstart, hstart ▸ hdead, hzero (hstart ▸ hdead)⟩
  case rootless =>
    intro m v hm hparent
    obtain ⟨k, -, -, hnode, -⟩ := hkept.exists_founded hm
    exact hnode hparent
  case down =>
    intro m v p hm hparent
    obtain ⟨k, hkm, hput, -, hfrom⟩ := hkept.exists_founded hm
    obtain ⟨hchild, hvisited, hduring⟩ := hfrom p hparent
    exact ⟨hchild, hvisited.mono hkm.le, k, hkm, hput, hduring⟩
  case dangling =>
    intro fault hfault hvisits
    obtain ⟨v, rfl, hdead, k, hk, hnode, hfrom⟩ := hkept.exists_of_failed (hfault ▸ hends)
    cases hparent : v.parent with
    | none =>
        have hstart : v.node = start := hnode hparent
        exact absurd (hzero (hstart ▸ hdead)) hvisits.ne'
    | some p =>
        obtain ⟨hchild, hvisited, -⟩ := hfrom p hparent
        exact ⟨p, v.node, by simp [Visit.fault, hparent], hvisited.mono hk.le, hchild, hdead⟩
  case settled =>
    obtain ⟨made, dropped, kept, hsettled, hitems⟩ := hkept.logged.exists_settlement
    refine ⟨made, dropped, kept, hsettled, ?_⟩
    intro hfinished
    rw [hfinished] at hends
    cases hends
    cases hitems
    have hcount := hsettled.length_eq
    rw [hkept.visits, hkept.length_puts] at hcount
    exact ⟨rfl, hcount⟩

/-- A visitor that asks for all sorts of things at its first visit: for two visits that it has
forgotten at once, and for three more. -/
def fickle : Visitor Unit ℕ := fun _ v _ =>
  ((), if v.input = 0 then
    [.immediate 0 1, .deferred 1 2, .forget 0, .again 3, .immediate 1 4, .deferred 0 5] else [])

/-- Of the six visits that are scheduled in this walk two are dropped. -/
theorem fickle_disciplined :
    (History.doubled.graph.walk 5 (.ofSlot 1 1) 0 fickle ()).ending = .finished ∧
    (History.doubled.graph.walk 5 (.ofSlot 1 1) 0 fickle ()).visits = 4 ∧
    ∃ made dropped, dropped.length = 2 ∧
      Settlement (History.doubled.graph.walkLog 5 (.ofSlot 1 1) 0 fickle ()) made dropped [] := by
  obtain ⟨-, -, hdisciplined⟩ := walk_disciplined History.doubled.graph 5 (.ofSlot 1 1) 0 fickle ()
  have hfinished : (History.doubled.graph.walk 5 (.ofSlot 1 1) 0 fickle ()).ending = .finished := by
    decide
  have hvisits : (History.doubled.graph.walk 5 (.ofSlot 1 1) 0 fickle ()).visits = 4 := by decide
  have hasked : ((History.doubled.graph.walkLog 5 (.ofSlot 1 1) 0 fickle ()).tail.countP
      fun e => e.put?.isSome) = 5 := by decide
  obtain ⟨made, dropped, kept, hsettled, hall⟩ := hdisciplined.settled
  obtain ⟨rfl, hcount⟩ := hall hfinished
  rw [hvisits, hasked] at hcount
  exact ⟨hfinished, hvisits, made, dropped, Nat.add_left_cancel hcount, hsettled⟩

end Graph

end SharedExpr
