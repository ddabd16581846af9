import SharedExpr.Proofs.History.Basic
import SharedExpr.Proofs.Release.Journal

/-!
# The trace is a complete journal

Every command gives an account of what it did (`Graph.perform_journals`), refusals and abandoned
releases included, so a history has one too. With a sink that takes every message it is all there.

* `History.messages` — what the sink got since the graph was opened.
* `History.recorded` — the defects ever recorded, those that were taken and those that were not.
* `History.journals` — the account of a history, whatever its sink takes.
* `History.trace_complete` — **the ledger that is kept from the messages is that of the graph**, its
  totals are the numbers of messages, and the defects are told of and logged one by one.
-/

namespace SharedExpr

namespace History

variable {H : History} {c : Command}

/-! ### What is told and what is recorded -/

/-- The messages that the sink got since the graph was opened. -/
def messages (H : History) : List Message :=
  H.graph.sink.received.toList.drop H.settings.sink.received.size

/-- The defects that a command took. -/
def takenBy : Command × Outcome Reply → List Fault
  | (.takeDefects, .done (.defects faults)) => faults.toList
  | _ => []

/-- The defects that were taken, in order. -/
def taken (H : History) : List Fault :=
  H.transcript.flatMap takenBy

/-- The defects that were ever recorded, in order. -/
def recorded (H : History) : List Fault :=
  H.taken ++ H.graph.defects.toList

/-- Only the command for it takes defects. -/
theorem takenBy_of_ne {outcome : Outcome Reply} (hc : c ≠ .takeDefects) :
    takenBy (c, outcome) = [] := by
  unfold takenBy
  split
  · rename_i heq
    exact absurd (Prod.mk.inj heq).1 hc
  · rfl

/-- What the last command took comes last. -/
theorem taken_andThen :
    (H.andThen c).taken = H.taken ++ takenBy (c, (H.graph.perform c).1) := by
  rw [taken, transcript_andThen, List.flatMap_append, List.flatMap_singleton]
  rfl

end History

/-! ### Commands and histories -/

/-- **Every command gives an account of what it did.** -/
theorem Graph.perform_journals (g : Graph) (c : Command) : ∃ ms faults,
    g.Journals (g.perform c).2 ms faults (History.takenBy (c, (g.perform c).1)) := by
  by_cases htake : c = .takeDefects
  · subst htake
    exact ⟨[], [], g.journals_takeDefects⟩
  · rw [History.takenBy_of_ne htake]
    induction c using Command.byKind with
    | build c node hc =>
        rw [perform_of_node? hc]
        obtain ⟨ms, hms⟩ := g.journals_build node
        exact ⟨ms, [], hms⟩
    | increment h =>
        obtain ⟨ms, hms⟩ := g.journals_increment h
        exact ⟨ms, [], hms⟩
    | decrement h => exact g.journals_decrement h
    | root h =>
        obtain ⟨ms, hms⟩ := g.journals_root h
        exact ⟨ms, [], hms⟩
    | release r => exact g.journals_release r
    | takeDefects => exact absurd rfl htake

namespace History

variable {H : History} {c : Command}

/-- The account of a history. -/
theorem journals (H : History) : ∃ ms faults,
    (Graph.ofSettings H.id H.settings).Journals H.graph ms faults H.taken := by
  induction H using History.induction with
  | opened id settings => exact ⟨[], [], .refl _⟩
  | andThen H c ih =>
      obtain ⟨ms, faults, hms⟩ := ih
      obtain ⟨ms', faults', hms'⟩ := H.graph.perform_journals c
      rw [taken_andThen, graph_andThen]
      exact ⟨ms ++ ms', faults ++ faults', hms.trans hms'⟩

/-- **The trace is a complete journal.** If the sink takes messages of every level, the ledger kept
from the messages shows the live nodes with their kinds, counts and roots, and no others; the totals
are the numbers of messages that tell of nodes added and reclaimed and of references added and taken
away. If defects are recorded, those that were ever recorded are the ones that messages told of, and
the ones that were logged, in the same order and words. -/
theorem trace_complete (H : History) (hsink : ∀ level, H.settings.sink.accepts level) :
    (∀ h, Ledger.empty.enterAll H.messages h = (H.graph.get? h).map Entry.standing) ∧
    H.graph.totals = .ofMessages H.messages ∧
    (H.settings.policy = .report →
      List.Forall₂ Message.TellsOf (H.messages.filter fun m => m.event.isDefect) H.recorded ∧
      H.graph.log.toList.filter LogRecord.isError = H.recorded.map LogRecord.ofFault) := by
  obtain ⟨ms, faults, hms⟩ := H.journals
  have hmessages : H.messages = ms := by
    have hreceived := congrArg Sink.received
      (hms.sink.trans (Sink.foldl_deliver_of_accepts ms hsink))
    rw [messages, hreceived]
    simp [Graph.ofSettings]
  have hopened : (Graph.ofSettings H.id H.settings).ledger = .empty := by
    funext h
    exact congrArg _ (get?_opened H.id H.settings h)
  rw [hmessages]
  refine ⟨fun h => ?_, ?_, fun hpolicy => ?_⟩
  · rw [← hopened, ← hms.ledger]
    rfl
  · rw [hms.totals]
    exact Totals.zero_plus _
  · have hrecorded : H.recorded = faults := by
      rw [recorded, hms.defects]
      show [] ++ H.settings.policy.recorded faults = faults
      rw [hpolicy]
      rfl
    obtain ⟨records, hlog, hfilter⟩ := hms.logged
    rw [hrecorded]
    refine ⟨hms.told, ?_⟩
    rw [hlog, ← hfilter]
    rfl

/-- A number that is added to itself. Both references to it are taken away, and then two that are
not there; in between the defects are taken. A reference is added, and the sum gets a root. -/
def observed : History where
  id := ⟨1⟩
  settings := ⟨.ofDestination .memory, .report⟩
  commands := [.intLiteral 7, .arithmetic .add [.ofSlot 1 0, .ofSlot 1 0],
    .decrement (.ofSlot 1 0), .decrement (.ofSlot 1 0), .decrement (.ofSlot 1 0), .takeDefects,
    .decrement (.ofSlot 1 0), .increment (.ofSlot 1 0), .root (.ofSlot 1 1)]

/-- The messages make the ledger, and tell of both defects. -/
theorem observed_trace :
    (∀ level, observed.settings.sink.accepts level) ∧
      Ledger.empty.enterAll observed.messages (.ofSlot 1 0) = some ⟨.intLiteral, 1, false⟩ ∧
      Ledger.empty.enterAll observed.messages (.ofSlot 1 1) = some ⟨.arithmetic, 0, true⟩ ∧
      (observed.messages.filter fun m => m.event.isDefect).length = 2 := by
  have hsink : ∀ level, observed.settings.sink.accepts level := by
    intro level
    cases level <;> rfl
  obtain ⟨hledger, -, hdefects⟩ := trace_complete observed hsink
  obtain ⟨htold, -⟩ := hdefects rfl
  have htwo : observed.recorded = [.underflow (.ofSlot 1 0) 0, .underflow (.ofSlot 1 0) 0] := by
    decide
  refine ⟨hsink, ?_, ?_, ?_⟩
  · rw [hledger]
    decide
  · rw [hledger]
    decide
  · rw [htold.length_eq, htwo]
    rfl

end History

end SharedExpr
