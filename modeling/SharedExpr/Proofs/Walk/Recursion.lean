import SharedExpr.Proofs.Walk.Discipline

/-!
# Walks as recursion

A visitor that puts all that it asks for in front of the agenda never sees the agenda: what is
pending waits until everything is done that was asked for since. So its walk can be told without
one, by a procedure that visits a node and calls itself on each visit that was scheduled there, the
last one first.

* `Request.isDeep` — requests that put visits in front.
* `Graph.recurse` — the procedure. It is told how deep it may call itself, and gives no result where
  this is not enough.
* `Graph.Follows` — a walk does what the procedure does, and leaves what is pending besides.
* `Graph.walk_of_recurse` — **wherever the procedure comes to an end, the walk makes the same visits
  in the same order and ends in the same way**.
-/

namespace SharedExpr

variable {σ ι : Type}

/-- Whether all that is asked for is put in front of the agenda. -/
def Request.isDeep : Request ι → Bool
  | .immediate _ _ | .children _ | .again _ => true
  | .deferred _ _ | .forget _ => false

/-! ### The procedure -/

/-- What a procedure has done when it is over. -/
structure Recursion (σ ι : Type) where
  /-- The state of the visitor. -/
  state : σ
  /-- The visits that were made, in order. -/
  made : List (Visit ι)
  /-- How the procedure ended. -/
  ending : Ending
deriving DecidableEq

/-- The procedure is run on each of the visits, up to one at which it fails. -/
def recurseAll (run : Visit ι → σ → Option (Recursion σ ι)) :
    List (Visit ι) → σ → Option (Recursion σ ι)
  | [], s => some ⟨s, [], .finished⟩
  | v :: vs, s =>
    (run v s).bind fun r =>
      if r.ending = .finished then
        (recurseAll run vs r.state).map fun q => ⟨q.state, r.made ++ q.made, q.ending⟩
      else some r

/-- The visitor is run on a node that is live, and the procedure on each visit that is scheduled
there, from the last to the first. At a node that is not live the procedure fails. -/
def Graph.recurse (g : Graph) (visitor : Visitor σ ι) :
    (depth : ℕ) → Visit ι → σ → Option (Recursion σ ι)
  | 0, _, _ => none
  | depth + 1, v, s =>
    match g.node? v.node with
    | none => some ⟨s, [], .failed v.fault⟩
    | some n =>
      let (s, requests) := visitor s v n
      (recurseAll (g.recurse visitor depth) (v.asked n requests).reverse s).map fun r =>
        ⟨r.state, v :: r.made, r.ending⟩

/-! ### What is put in front -/

namespace Visit

variable {v : Visit ι} {n : Node} {requests : List (Request ι)} {e : Agenda.Event (Visit ι)}

/-- Requests that are not deferred put visits in front. -/
theorem exists_front_of_isDeep {r : Request ι} (hr : r.isDeep) (he : e ∈ v.events n r) :
    ∃ w, e = .front w := by
  cases r
  case immediate | children =>
    obtain ⟨child, -, rfl⟩ := List.mem_map.1 he
    exact ⟨_, rfl⟩
  case again => exact ⟨_, List.mem_singleton.1 he⟩
  case deferred | forget => cases hr

/-- Items that are put in front one by one stand there in reverse order. -/
theorem foldl_apply_of_front {α : Type} {es : List (Agenda.Event α)}
    (hes : ∀ e ∈ es, ∃ x, e = .front x) (items : List α) :
    es.foldl Agenda.Event.apply items = (es.filterMap Agenda.Event.put?).reverse ++ items := by
  induction es generalizing items with
  | nil => rfl
  | cons e es ih =>
      obtain ⟨⟨x, rfl⟩, hrest⟩ := List.forall_mem_cons.1 hes
      rw [List.foldl_cons, ih hrest]
      simp [Agenda.Event.apply, Agenda.Event.put?]

/-- The visits that are scheduled come before what is pending, the last one first. -/
theorem foldl_apply_of_isDeep (hdeep : ∀ r ∈ requests, r.isDeep) (items : List (Visit ι)) :
    (requests.flatMap (v.events n)).foldl Agenda.Event.apply items =
      (v.asked n requests).reverse ++ items := by
  apply foldl_apply_of_front
  intro e he
  obtain ⟨r, hr, he⟩ := List.mem_flatMap.1 he
  exact exists_front_of_isDeep (hdeep r hr) he

end Visit

namespace Graph

variable {g : Graph} {visitor : Visitor σ ι} {a : Agenda (Visit ι)} {v : Visit ι}
  {vs rest : List (Visit ι)} {s : σ} {r : Recursion σ ι} {log : List (Agenda.Event (Visit ι))}

/-! ### Walks that do the same -/

/-- From the agenda and the state a walk makes the visits that the procedure made. If this was
carried through, `rest` is still pending, and if it failed, so does the walk. -/
def Follows (g : Graph) (visitor : Visitor σ ι) (a : Agenda (Visit ι)) (s : σ)
    (log : List (Agenda.Event (Visit ι))) (r : Recursion σ ι) (rest : List (Visit ι)) : Prop :=
  ∃ b log', g.Leads visitor.logging a (s, log) r.made.length b (r.state, log') ∧
    log'.filterMap Agenda.Event.taken? = log.filterMap Agenda.Event.taken? ++ r.made ∧
    (r.ending = .finished ∧ b.toList = rest ∨
      ∃ fault, r.ending = .failed fault ∧ g.EndsWith b.toList r.ending)

/-- If walks follow a procedure on each visit, they follow it on many. -/
theorem follows_of_recurseAll {run : Visit ι → σ → Option (Recursion σ ι)}
    (hrun : ∀ v s r a log rest, run v s = some r → a.toList = v :: rest →
      g.Follows visitor a s log r rest)
    (hr : recurseAll run vs s = some r) (ha : a.toList = vs ++ rest) :
    g.Follows visitor a s log r rest := by
  induction vs generalizing a s r log with
  | nil =>
      obtain rfl := Option.some_inj.1 hr
      exact ⟨a, log, .refl, by simp, .inl ⟨rfl, ha⟩⟩
  | cons v vs ih =>
      obtain ⟨first, hfirst, hr⟩ := Option.bind_eq_some_iff.1 hr
      obtain ⟨b, log₁, hab, htaken, hend⟩ := hrun v s first a log (vs ++ rest) hfirst ha
      rcases hend with ⟨hfinished, hb⟩ | ⟨fault, hfailed, hb⟩
      · -- the other visits are made from what is left
        rw [if_pos hfinished] at hr
        obtain ⟨others, hothers, rfl⟩ := Option.map_eq_some_iff.1 hr
        have hfollows : g.Follows visitor b first.state log₁ others rest := ih hothers hb
        obtain ⟨c, log₂, hbc, htaken₂, hend⟩ := hfollows
        refine ⟨c, log₂, ?_, ?_, hend⟩
        · rw [List.length_append]
          exact hab.trans hbc
        · rw [htaken₂, htaken, List.append_assoc]
      · rw [if_neg (by simp [hfailed])] at hr
        obtain rfl := Option.some_inj.1 hr
        exact ⟨b, log₁, hab, htaken, .inr ⟨fault, hfailed, hb⟩⟩

/-- **Walks follow the procedure**, whatever is pending. -/
theorem follows_of_recurse (hdeep : ∀ s v n, ∀ r ∈ (visitor s v n).2, r.isDeep) {depth : ℕ}
    (hr : g.recurse visitor depth v s = some r) (ha : a.toList = v :: rest)
    (log : List (Agenda.Event (Visit ι))) : g.Follows visitor a s log r rest := by
  induction depth generalizing v s r a log rest with
  | zero => cases hr
  | succ depth ih =>
      rw [recurse] at hr
      cases hn : g.node? v.node with
      | none =>
          rw [hn] at hr
          obtain rfl := Option.some_inj.1 hr
          refine ⟨a, log, .refl, by simp, .inr ⟨v.fault, rfl, ?_⟩⟩
          rw [ha]
          exact .failed hn
      | some n =>
          rw [hn] at hr
          obtain ⟨below, hbelow, rfl⟩ := Option.map_eq_some_iff.1 hr
          obtain ⟨b, hb, hround⟩ := exists_leads_of_cons visitor.logging (s, log) ha hn
          have hitems := hb.trans (Visit.foldl_apply_of_isDeep (hdeep s v n) rest)
          obtain ⟨c, log', hbc, htaken, hend⟩ :=
            follows_of_recurseAll (fun _ _ _ _ log _ hrun hlist => ih hrun hlist log) hbelow hitems
          refine ⟨c, log', ?_, ?_, hend⟩
          · rw [List.length_cons, Nat.add_comm]
            exact hround.trans hbc
          · have hnone : ((visitor s v n).2.flatMap (v.events n)).filterMap
                Agenda.Event.taken? = [] :=
              List.filterMap_eq_nil_iff.2 fun _ => Visit.taken?_of_mem_events
            simp [htaken, hnone, Agenda.Event.taken?]

/-- **A walk whose visitor puts everything in front is a recursion.** Whenever the procedure ends,
at whatever depth, a walk that may make a visit more than the procedure made makes the same visits,
of the same nodes for the same parents with the same inputs, in the same order. It ends in the same
state and with the same result: it is carried through, or it fails at an edge to a child that is not
live. -/
theorem walk_of_recurse (hdeep : ∀ s v n, ∀ r ∈ (visitor s v n).2, r.isDeep) {start : Handle}
    (hstart : g.contains start) {input : ι} {depth : ℕ}
    (hr : g.recurse visitor depth ⟨start, none, input⟩ s = some r) :
    (∀ fuel > r.made.length,
      g.walk fuel start input visitor s = ⟨r.state, r.made.length, r.ending⟩ ∧
      (g.walkLog fuel start input visitor s).filterMap Agenda.Event.taken? = r.made) ∧
    (r.ending = .finished ∨ ∃ p c, r.ending = .failed (.danglingEdge p c) ∧ (p, c) ∈ g.edges ∧
      ¬ g.contains c) := by
  have hfirst : (Agenda.empty.pushFront (⟨start, none, input⟩ : Visit ι)).toList =
      [⟨start, none, input⟩] := rfl
  obtain ⟨b, log, hleads, htaken, hend⟩ :=
    follows_of_recurse hdeep hr hfirst [.front ⟨start, none, input⟩]
  have hends : g.EndsWith b.toList r.ending ∧ r.ending ≠ .outOfFuel := by
    rcases hend with ⟨hfinished, hb⟩ | ⟨fault, hfailed, hb⟩
    · rw [hb, hfinished]
      exact ⟨.finished, by simp⟩
    · exact ⟨hb, by simp [hfailed]⟩
  have hwalk : ∀ fuel > r.made.length, g.walk fuel start input visitor.logging
      (s, [.front ⟨start, none, input⟩]) = ⟨(r.state, log), r.made.length, r.ending⟩ := by
    intro fuel hfuel
    rw [walk, hleads.walkOn_eq hends.1 hends.2 hfuel, Nat.zero_add]
  have hsame : ∀ fuel > r.made.length,
      g.walk fuel start input visitor s = ⟨r.state, r.made.length, r.ending⟩ := by
    intro fuel hfuel
    rw [← map_walk_logging g fuel start input visitor s [.front ⟨start, none, input⟩],
      hwalk fuel hfuel]
    rfl
  refine ⟨fun fuel hfuel => ⟨hsame fuel hfuel, ?_⟩, ?_⟩
  · rw [walkLog, hwalk fuel hfuel, htaken]
    rfl
  · rcases hend with ⟨hfinished, -⟩ | ⟨fault, hfailed, -⟩
    · exact .inl hfinished
    · have hfault := congrArg Walked.ending (hsame (r.made.length + 1) (Nat.lt_succ_self _))
      obtain ⟨p, c, rfl, hpc⟩ := exists_danglingEdge_of_failed hstart (hfault.trans hfailed)
      exact .inr ⟨p, c, hfailed, hpc⟩

/-- A visitor that counts its visits, and comes back to a node twice before it goes to the
children. -/
def eager : Visitor ℕ ℕ := fun visits v _ =>
  (visits + 1, match v.input with
    | 2 => [.children 0, .again 1]
    | 1 => [.immediate 1 0, .again 0]
    | _ => [])

/-- In a graph that has lost the operand of a sum the visitor comes to the sum three times, and then
to the second occurrence of the operand, while all others are pending. -/
theorem eager_walk_of_recurse :
    (History.doubled.graph.remove (.ofSlot 1 0)).walk 9 (.ofSlot 1 1) 2 eager 0 =
      ⟨3, 3, .failed (.danglingEdge (.ofSlot 1 1) (.ofSlot 1 0))⟩ ∧
    ((History.doubled.graph.remove (.ofSlot 1 0)).walkLog 9 (.ofSlot 1 1) 2 eager 0).filterMap
        Agenda.Event.taken? =
      [⟨.ofSlot 1 1, none, 2⟩, ⟨.ofSlot 1 1, none, 1⟩, ⟨.ofSlot 1 1, none, 0⟩] := by
  have hdeep : ∀ s v n, ∀ r ∈ (eager s v n).2, r.isDeep := by
    intro s v n r hr
    unfold eager at hr
    split at hr <;> grind [Request.isDeep]
  have hlive : (History.doubled.graph.remove (.ofSlot 1 0)).contains (.ofSlot 1 1) := by decide
  have hrecurse : (History.doubled.graph.remove (.ofSlot 1 0)).recurse eager 3
      ⟨.ofSlot 1 1, none, 2⟩ 0 = some ⟨3, [⟨.ofSlot 1 1, none, 2⟩, ⟨.ofSlot 1 1, none, 1⟩,
        ⟨.ofSlot 1 1, none, 0⟩], .failed (.danglingEdge (.ofSlot 1 1) (.ofSlot 1 0))⟩ := by decide
  obtain ⟨hsame, -⟩ := walk_of_recurse hdeep hlive hrecurse
  exact hsame 9 (by decide)

end Graph

end SharedExpr
