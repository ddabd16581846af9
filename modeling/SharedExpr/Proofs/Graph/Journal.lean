import Mathlib.Data.List.Forall2
import Mathlib.Logic.Function.Basic
import SharedExpr.Proofs.Graph.Construction

/-!
# What a graph tells, as a journal

Whoever gets the messages of a graph can keep a ledger of its live nodes: an event enters a node,
sets its count, marks it or strikes it out. The ledger is right if each change of the graph is told
by the one event that enters it, and that is what is said here, change by change.

* `Ledger`, `Ledger.enter` — what is known of live nodes, and what an event does to it;
  `Graph.ledger` — what there is to know.
* `Graph.Journals` — **one graph is what another one has become, by its own account**: the messages
  that it sent in between make the one ledger of the other and account for its totals, and the
  defects that it noticed are those that it told of, logged and, if it is to, recorded.
* `Graph.Journals.trans` — accounts are put together.
* `Graph.journals_add`, `Graph.journals_raiseTo`, `Graph.journals_lowerTo`,
  `Graph.journals_reclaim`, `Graph.journals_note` and so on — one account for each change. The end
  of a root is told by the message that the node goes with, if it goes
  (`Graph.journals_reclaim_unrooted`).
-/

namespace SharedExpr

/-! ### Ledgers -/

/-- What is known of a live node. -/
structure Standing where
  /-- Its kind. -/
  kind : Kind
  /-- Its count. -/
  count : ℕ
  /-- Whether a root holds it. -/
  rooted : Bool
deriving DecidableEq

/-- What is known of a node by its entry. -/
def Entry.standing (e : Entry) : Standing :=
  ⟨e.node.kind, e.count.value, e.rooted⟩

/-- What is known of live nodes. -/
abbrev Ledger :=
  Handle → Option Standing

namespace Ledger

/-- No node is live. -/
def empty : Ledger :=
  fun _ => none

/-- The ledger with what is known of a node changed, if it is live. -/
def amend (L : Ledger) (h : Handle) (f : Standing → Standing) : Ledger :=
  Function.update L h ((L h).map f)

/-- The ledger after an event. -/
def enter (L : Ledger) : Event → Ledger
  | .constructed h kind => Function.update L h (some ⟨kind, 0, false⟩)
  | .referenced h count | .dereferenced h count => L.amend h fun s => { s with count := count }
  | .rooted h => L.amend h fun s => { s with rooted := true }
  | .unrooted h _ => L.amend h fun s => { s with rooted := false }
  | .released h _ => Function.update L h none
  | .defect _ => L

/-- The ledger after messages. -/
def enterAll (L : Ledger) (ms : List Message) : Ledger :=
  ms.foldl (fun L m => L.enter m.event) L

end Ledger

/-! ### Events by what they count for -/

namespace Event

/-- Whether a node was added. -/
def isConstructed : Event → Bool
  | .constructed _ _ => true
  | _ => false

/-- Whether a node was reclaimed. -/
def isReleased : Event → Bool
  | .released _ _ => true
  | _ => false

/-- Whether a node gained a reference. -/
def isReferenced : Event → Bool
  | .referenced _ _ => true
  | _ => false

/-- Whether a node lost a reference. -/
def isDereferenced : Event → Bool
  | .dereferenced _ _ => true
  | _ => false

/-- Whether a defect was noticed. -/
def isDefect : Event → Bool
  | .defect _ => true
  | _ => false

end Event

namespace Totals

/-- How often what was done, by the messages that tell of it. -/
def ofMessages (ms : List Message) : Totals where
  constructed := ms.countP fun m => m.event.isConstructed
  released := ms.countP fun m => m.event.isReleased
  increments := ms.countP fun m => m.event.isReferenced
  decrements := ms.countP fun m => m.event.isDereferenced

/-- Totals with others added. -/
def plus (s t : Totals) : Totals :=
  ⟨s.constructed + t.constructed, s.released + t.released, s.increments + t.increments,
    s.decrements + t.decrements⟩

/-- No messages tell of nothing. -/
theorem plus_zero (t : Totals) : t.plus (.ofMessages []) = t := rfl

/-- Totals that start at zero are those of the messages. -/
theorem zero_plus (t : Totals) : zero.plus t = t := by
  simp [plus, zero]

/-- Totals are raised by one part of the messages after the other. -/
theorem plus_ofMessages_append (t : Totals) (ms ms' : List Message) :
    t.plus (.ofMessages (ms ++ ms')) = (t.plus (.ofMessages ms)).plus (.ofMessages ms') := by
  simp [plus, ofMessages, List.countP_append, Nat.add_assoc]

end Totals

/-! ### Defects by what tells of them -/

/-- The node at which a defect is noticed: the one whose count is zero, or the one that is gone. -/
def Fault.site? : Fault → Option Handle
  | .underflow node _ => some node
  | .danglingEdge _ child => some child
  | _ => none

/-- Whether a message tells of a defect where it was noticed, in the words of the defect. -/
def Message.TellsOf (m : Message) (fault : Fault) : Prop :=
  ∃ node, fault.site? = some node ∧ m = .defect node fault

/-- Whether a record tells of a defect. -/
def LogRecord.isError (r : LogRecord) : Bool :=
  r.severity = .error

/-- The record that tells of a defect. -/
def LogRecord.ofFault (fault : Fault) : LogRecord :=
  ⟨.error, fault.message⟩

/-- Which of the defects that are noticed a graph records. -/
def Policy.recorded : Policy → List Fault → List Fault
  | .report, faults => faults
  | .abort, _ => []

/-- Without a defect nothing is recorded. -/
@[simp] theorem Policy.recorded_nil (p : Policy) : p.recorded [] = [] := by
  cases p <;> rfl

/-- Defects are recorded in the order in which they are noticed. -/
theorem Policy.recorded_append (p : Policy) (fs fs' : List Fault) :
    p.recorded (fs ++ fs') = p.recorded fs ++ p.recorded fs' := by
  cases p <;> rfl

/-! ### Sinks that are offered messages -/

namespace Sink

/-- Messages do not change what a sink accepts. -/
@[simp] theorem accepts_foldl_deliver (ms : List Message) (s : Sink) (level : Level) :
    (ms.foldl deliver s).accepts level = s.accepts level := by
  induction ms generalizing s with
  | nil => rfl
  | cons m ms ih => rw [List.foldl_cons, ih, accepts_deliver]

/-- What a sink has got it keeps. -/
theorem received_prefix_foldl_deliver (ms : List Message) (s : Sink) :
    s.received.toList <+: (ms.foldl deliver s).received.toList := by
  induction ms generalizing s with
  | nil => exact List.prefix_rfl
  | cons m ms ih =>
      refine List.IsPrefix.trans ?_ (ih (s.deliver m))
      unfold deliver
      split
      · simp
      · exact List.prefix_rfl

/-- A sink that takes every message has got them all. -/
theorem foldl_deliver_of_accepts (ms : List Message) {s : Sink}
    (hs : ∀ level, s.accepts level) :
    ms.foldl Sink.deliver s = { s with received := s.received ++ ms.toArray } := by
  induction ms generalizing s with
  | nil => simp
  | cons m ms ih =>
      have hs' : ∀ level, (s.deliver m).accepts level := fun level => by
        rw [accepts_deliver]
        exact hs level
      rw [List.foldl_cons, ih hs', deliver_of_accepts (hs m.level)]
      simp

end Sink

namespace Graph

variable {a b c : Graph} {ms ms' : List Message} {faults faults' taken taken' : List Fault}
  {m : Message}

/-! ### Accounts -/

/-- What there is to know of the live nodes. -/
def ledger (g : Graph) : Ledger :=
  fun h => (g.get? h).map Entry.standing

/-- The second graph is what the first has become: it sent the messages `ms` in between and noticed
the defects `faults`, and the defects `taken` were taken from it. -/
structure Journals (a b : Graph) (ms : List Message) (faults taken : List Fault) : Prop where
  /-- The messages were offered to the sink. -/
  sink : b.sink = ms.foldl Sink.deliver a.sink
  /-- They tell of every change of a node. -/
  ledger : b.ledger = a.ledger.enterAll ms
  /-- They tell of what was counted. -/
  totals : b.totals = a.totals.plus (.ofMessages ms)
  /-- They tell of the defects. -/
  told : List.Forall₂ Message.TellsOf (ms.filter fun m => m.event.isDefect) faults
  /-- The log tells of them too. -/
  logged : ∃ records, b.log.toList = a.log.toList ++ records ∧
    records.filter LogRecord.isError = faults.map LogRecord.ofFault
  /-- The policy is what it was. -/
  policy : b.policy = a.policy
  /-- The defects are recorded, if that is the policy. -/
  defects : taken ++ b.defects.toList = a.defects.toList ++ a.policy.recorded faults

/-- A graph that was left alone has nothing to tell. -/
theorem Journals.refl (g : Graph) : g.Journals g [] [] [] where
  sink := rfl
  ledger := rfl
  totals := (Totals.plus_zero _).symm
  told := .nil
  logged := ⟨[], (List.append_nil _).symm, rfl⟩
  policy := rfl
  defects := by simp

/-- **Accounts are put together.** -/
theorem Journals.trans (hab : a.Journals b ms faults taken)
    (hbc : b.Journals c ms' faults' taken') :
    a.Journals c (ms ++ ms') (faults ++ faults') (taken ++ taken') where
  sink := by rw [hbc.sink, hab.sink, List.foldl_append]
  ledger := by rw [hbc.ledger, hab.ledger, Ledger.enterAll, Ledger.enterAll, Ledger.enterAll,
    List.foldl_append]
  totals := by rw [hbc.totals, hab.totals, Totals.plus_ofMessages_append]
  told := by
    rw [List.filter_append]
    exact List.rel_append hab.told hbc.told
  logged := by
    obtain ⟨rs, hrs, hfs⟩ := hab.logged
    obtain ⟨rs', hrs', hfs'⟩ := hbc.logged
    refine ⟨rs ++ rs', ?_, ?_⟩
    · rw [hrs', hrs, List.append_assoc]
    · rw [List.filter_append, hfs, hfs', List.map_append]
  policy := hbc.policy.trans hab.policy
  defects := by
    rw [List.append_assoc, hbc.defects, ← List.append_assoc, hab.defects, hab.policy,
      Policy.recorded_append, List.append_assoc]

/-- A sink takes what it took before. -/
theorem Journals.accepts (hab : a.Journals b ms faults taken) (level : Level) :
    b.sink.accepts level = a.sink.accepts level := by
  rw [hab.sink, Sink.accepts_foldl_deliver]

/-- Where no defect is noticed and none is taken, the recorded ones stay. -/
theorem Journals.defects_eq (hab : a.Journals b ms [] []) : b.defects = a.defects := by
  simpa using hab.defects

/-- A change that is told by one message and is no defect. -/
theorem Journals.of_message (hm : m.event.isDefect = false) (hsink : b.sink = a.sink.deliver m)
    (hledger : b.ledger = a.ledger.enter m.event)
    (htotals : b.totals = a.totals.plus (.ofMessages [m])) (hlog : b.log = a.log)
    (hpolicy : b.policy = a.policy) (hdefects : b.defects = a.defects) :
    a.Journals b [m] [] [] where
  sink := hsink
  ledger := hledger
  totals := htotals
  told := by simp [hm]
  logged := ⟨[], by rw [hlog, List.append_nil], rfl⟩
  policy := hpolicy
  defects := by simp [hdefects]

/-! ### Ledgers after changes -/

variable {g : Graph} {h : Handle}

/-- A change of an entry that is a change of what is known of it. -/
theorem ledger_eq_amend {f : Entry → Entry} {f' : Standing → Standing}
    (hget : ∀ l, b.get? l = if l = h then (a.get? h).map f else a.get? l)
    (hf : ∀ e, (f e).standing = f' e.standing) : b.ledger = a.ledger.amend h f' := by
  funext l
  rw [Ledger.amend, Function.update_apply, Graph.ledger, hget]
  split
  · rw [Option.map_map, Graph.ledger, Option.map_map]
    congr 1
    funext e
    exact hf e
  · rfl

/-! ### One account for each change -/

/-- A new node is told of. -/
theorem journals_add (g : Graph) (node : Node) :
    g.Journals (g.add node).2 [.constructed (g.add node).1 node.kind] [] [] := by
  have hledger : (g.add node).2.ledger =
      g.ledger.enter (.constructed (g.add node).1 node.kind) := by
    funext l
    rw [Ledger.enter, Function.update_apply, Graph.ledger, get?_add]
    split <;> rfl
  exact .of_message rfl rfl hledger rfl rfl rfl rfl

/-- A change of an entry, with totals to go with it, that is told by one message. -/
theorem journals_modify {f : Entry → Entry} {f' : Standing → Standing} {totals : Totals}
    (hf : ∀ e, (f e).standing = f' e.standing) (hm : m.event.isDefect = false)
    (henter : g.ledger.enter m.event = g.ledger.amend h f')
    (htotals : totals = g.totals.plus (.ofMessages [m])) :
    g.Journals (({ g.modify h f with totals := totals } : Graph).tell m) [m] [] [] :=
  .of_message hm (congrArg (Sink.deliver · m) (g.sink_modify h f))
    ((ledger_eq_amend (g.get?_modify h f) hf).trans henter.symm) htotals (g.log_modify h f)
    (g.policy_modify h f) (g.defects_modify h f)

/-- A reference that is added is told of. -/
theorem journals_raiseTo (g : Graph) (h : Handle) (count : Count) :
    g.Journals (g.raiseTo h count) [.referenced h count.value] [] [] :=
  journals_modify (fun _ => rfl) rfl rfl (g.totals_raiseTo h count)

/-- A reference that is taken away is told of. -/
theorem journals_lowerTo (g : Graph) (h : Handle) (count : Count) :
    g.Journals (g.lowerTo h count) [.dereferenced h count.value] [] [] :=
  journals_modify (fun _ => rfl) rfl rfl (g.totals_lowerTo h count)

/-- A root that is taken is told of. -/
theorem journals_rooted (g : Graph) (h : Handle) :
    g.Journals ((g.setRooted h true).tell (.rooted h)) [.rooted h] [] [] :=
  journals_modify (fun _ => rfl) rfl rfl (g.totals_setRooted h true)

/-- A root that is given up is told of, if the node stays. -/
theorem journals_unrooted (g : Graph) (h : Handle) (count : ℕ) :
    g.Journals ((g.setRooted h false).tell (.unrooted h count)) [.unrooted h count] [] [] :=
  journals_modify (fun _ => rfl) rfl rfl (g.totals_setRooted h false)

/-- Reclaiming a node changes the store, tells of it and counts it. -/
theorem exists_reclaim (g : Graph) (h : Handle) (kind : Kind) : ∃ store,
    g.reclaim h kind = { g with
      store := store
      totals := { g.totals with released := g.totals.released + 1 }
      sink := g.sink.deliver (.released h kind) } := by
  obtain ⟨store, hs⟩ := g.exists_remove h
  exact ⟨store, by rw [reclaim, hs]; rfl⟩

/-- **A node that goes is told of, and so is its root**: what was done to the node itself just
before needs no message of its own. -/
theorem journals_reclaim_of_same (hsink : b.sink = a.sink) (htotals : b.totals = a.totals)
    (hlog : b.log = a.log) (hpolicy : b.policy = a.policy) (hdefects : b.defects = a.defects)
    (hget : ∀ l, l ≠ h → b.get? l = a.get? l) (kind : Kind) :
    a.Journals (b.reclaim h kind) [.released h kind] [] [] := by
  obtain ⟨store, hs⟩ := b.exists_reclaim h kind
  have hledger : (b.reclaim h kind).ledger = a.ledger.enter (.released h kind) := by
    funext l
    rw [Ledger.enter, Function.update_apply, Graph.ledger, get?_reclaim]
    split
    · rfl
    · rename_i hl
      rw [hget l hl]
      rfl
  rw [hs] at hledger ⊢
  exact .of_message rfl (congrArg (Sink.deliver · _) hsink) hledger
    (by rw [← htotals]; rfl) hlog hpolicy hdefects

/-- A node that is reclaimed is told of. -/
theorem journals_reclaim (g : Graph) (h : Handle) (kind : Kind) :
    g.Journals (g.reclaim h kind) [.released h kind] [] [] :=
  journals_reclaim_of_same rfl rfl rfl rfl rfl (fun _ _ => rfl) kind

/-- A node that is reclaimed after it lost its root is told of. -/
theorem journals_reclaim_unrooted (g : Graph) (h : Handle) (kind : Kind) :
    g.Journals ((g.setRooted h false).reclaim h kind) [.released h kind] [] [] :=
  journals_reclaim_of_same (g.sink_modify h _) (g.totals_setRooted h false)
    (g.log_setRooted h false) (g.policy_setRooted h false) (g.defects_setRooted h false)
    (fun l hl => (g.get?_setRooted h false l).trans (if_neg hl)) kind

/-- A defect that is noted is told to the sink and logged, and recorded as the policy says. -/
theorem note_eq (g : Graph) (h : Handle) (fault : Fault) : g.note h fault =
    { g with
      sink := g.sink.deliver (.defect h fault)
      log := g.log.push (.ofFault fault)
      defects := g.defects ++ (g.policy.recorded [fault]).toArray } := by
  obtain ⟨id, store, policy, sink, defects, totals, log⟩ := g
  cases policy with
  | report => simp [note, write, tell, Policy.recorded, LogRecord.ofFault]
  | abort => simp [note, write, tell, Policy.recorded, LogRecord.ofFault]

/-- A defect is told of, logged and, if that is the policy, recorded. -/
theorem journals_note {fault : Fault} (hsite : fault.site? = some h) :
    g.Journals (g.note h fault) [.defect h fault] [fault] [] := by
  rw [note_eq]
  exact {
    sink := rfl
    ledger := rfl
    totals := rfl
    told := .cons ⟨h, hsite, rfl⟩ .nil
    logged := ⟨[.ofFault fault], Array.toList_push, rfl⟩
    policy := rfl
    defects := by simp }

/-- What is logged and is no defect needs no message. -/
theorem journals_write (g : Graph) (text : String) :
    g.Journals (g.write .debug text) [] [] [] where
  sink := rfl
  ledger := rfl
  totals := (Totals.plus_zero _).symm
  told := .nil
  logged := ⟨[⟨.debug, text⟩], by simp [write], rfl⟩
  policy := rfl
  defects := (Journals.refl g).defects

/-- Defects that are taken are not recorded any more, and nothing is told of that. -/
theorem journals_takeDefects (g : Graph) :
    g.Journals g.takeDefects.2 [] [] g.takeDefects.1.toList where
  sink := rfl
  ledger := rfl
  totals := (Totals.plus_zero _).symm
  told := .nil
  logged := ⟨[], (List.append_nil _).symm, rfl⟩
  policy := rfl
  defects := by simp [takeDefects]

/-! ### Accounts of operations -/

/-- A reference more is told of, if its node is live. -/
theorem journals_raise (g : Graph) (h : Handle) : ∃ ms, g.Journals (g.raise h) ms [] [] := by
  unfold raise
  split
  · exact ⟨_, g.journals_raiseTo h _⟩
  · exact ⟨[], .refl g⟩

/-- References that are added are told of one by one. -/
theorem journals_foldl_raise (hs : List Handle) (g : Graph) :
    ∃ ms, g.Journals (hs.foldl raise g) ms [] [] := by
  induction hs generalizing g with
  | nil => exact ⟨[], .refl g⟩
  | cons h hs ih =>
      obtain ⟨ms, hms⟩ := g.journals_raise h
      obtain ⟨ms', hms'⟩ := ih (g.raise h)
      exact ⟨ms ++ ms', hms.trans hms'⟩

/-- A construction is told of, and may be refused without a message. -/
theorem journals_build (g : Graph) (node : Node) :
    ∃ ms, g.Journals (g.build node).2 ms [] [] := by
  have hb := g.build_built node
  generalize g.build node = result at hb
  cases hb with
  | refused hm hdead => exact ⟨[], .refl g⟩
  | done hlive =>
      obtain ⟨ms, hms⟩ := journals_foldl_raise node.children (g.add node).2
      exact ⟨_ :: ms, (g.journals_add node).trans hms⟩

/-- A direct reference is told of, and may be refused without a message. -/
theorem journals_increment (g : Graph) (h : Handle) :
    ∃ ms, g.Journals (g.increment h).2 ms [] [] := by
  rcases g.increment_cases h with ⟨fault, hinc⟩ | ⟨-, n, hinc⟩
  · rw [hinc]
    exact ⟨[], .refl g⟩
  · rw [hinc]
    exact g.journals_raise h

/-- A reference that is taken away directly is told of, and a defect as well if there is none to
take. -/
theorem journals_decrement (g : Graph) (h : Handle) :
    ∃ ms faults, g.Journals (g.decrement h).2 ms faults [] := by
  unfold decrement
  split
  · exact ⟨[], [], .refl g⟩
  · split
    · exact ⟨_, [], g.journals_lowerTo h _⟩
    · exact ⟨_, _, g.journals_note rfl⟩

/-- A new root is told of, and may be refused without a message. -/
theorem journals_root (g : Graph) (h : Handle) :
    ∃ ms, g.Journals (g.root h).2 ms [] [] := by
  unfold root
  split
  · exact ⟨[], .refl g⟩
  · split
    · exact ⟨[], .refl g⟩
    · exact ⟨_, g.journals_rooted h⟩

end Graph

end SharedExpr
