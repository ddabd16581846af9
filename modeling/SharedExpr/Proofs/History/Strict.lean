import SharedExpr.Proofs.History.Evolution
import SharedExpr.Proofs.History.Journal
import SharedExpr.Proofs.Release.Strict

/-!
# The aborting policy is the reporting policy, cut at the first defect

The same commands are given to two graphs that differ in their policy only. As long as no defect is
recorded they cannot be told apart; with the command that brings the first defect the aborting graph
stops where the reporting one was when it noticed it.

* `Graph.perform_curtailed` — one command under both policies.
* `History.strict`, `History.Abandoned` — the same history under the aborting policy, and whether a
  command of it was abandoned.
* `History.strict_cuts` — **until the first defect both histories are the same, and the command that
  records it is the first one that is abandoned**, with that defect and in that state of the graph.
-/

namespace SharedExpr

/-- An outcome that is told in another form is not aborted by that. -/
theorem Outcome.map_ne_aborted {α β : Type} {o : Outcome α} {f : α → β} {fault : Fault}
    (ho : o ≠ .aborted fault) : o.map f ≠ .aborted fault := by
  cases o with
  | aborted _ => simpa [Outcome.map] using ho
  | _ => simp [Outcome.map]

namespace Graph

variable {g : Graph}

/-- A command under both policies. -/
theorem perform_curtailed (hp : g.policy = .report) (hd : g.defects = #[]) (c : Command) :
    g.Curtailed (g.Notices c) (g.perform c) (g.strict.perform c) := by
  induction c using Command.byKind with
  | build c node hc =>
      rw [perform_of_node? hc, perform_of_node? hc]
      exact (Curtailed.of_strict (g.strict_build node) (g.journals_build node)).replying .node
  | increment h =>
      exact (Curtailed.of_strict (g.strict_increment h) (g.journals_increment h)).replying .count
  | decrement h => exact (g.decrement_curtailed h).replying .count
  | root h => exact (Curtailed.of_strict (g.strict_root h) (g.journals_root h)).replying .root
  | release r => exact (g.release_curtailed r hp).replying .reclaimed
  | takeDefects => exact .same hd.symm

/-- Only the aborting policy abandons a command. -/
theorem perform_fst_ne_aborted (hp : g.policy = .report) (c : Command) (fault : Fault) :
    (g.perform c).1 ≠ .aborted fault := by
  induction c using Command.byKind with
  | build c node hc =>
      rw [perform_of_node? hc]
      apply Outcome.map_ne_aborted
      unfold build
      split <;> simp
  | increment h =>
      apply Outcome.map_ne_aborted
      unfold increment
      split <;> simp
  | decrement h =>
      apply Outcome.map_ne_aborted
      unfold decrement verdict
      rw [hp]
      split
      · simp
      · split <;> simp
  | root h =>
      apply Outcome.map_ne_aborted
      unfold root
      split
      · simp
      · split <;> simp
  | release r => exact Outcome.map_ne_aborted (release_fst_ne_aborted hp r fault)
  | takeDefects => simp [perform, takeDefects]

end Graph

namespace History

variable {H : History} {c : Command}

/-- The same history under the aborting policy. -/
def strict (H : History) : History :=
  { H with settings := { H.settings with policy := .abort } }

/-- Some command was abandoned. -/
def Abandoned (H : History) : Prop :=
  ∃ step ∈ H.transcript, ∃ fault, step.2 = .aborted fault

/-- Under the aborting policy too the last command comes last. -/
theorem strict_andThen : (H.andThen c).strict = H.strict.andThen c := rfl

/-! ### What is recorded -/

/-- What was recorded stays on record. -/
theorem exists_recorded_andThen (H : History) (c : Command) :
    ∃ faults, (H.andThen c).recorded = H.recorded ++ H.settings.policy.recorded faults := by
  obtain ⟨ms, faults, hms⟩ := H.graph.perform_journals c
  refine ⟨faults, ?_⟩
  rw [recorded, taken_andThen, graph_andThen, List.append_assoc, hms.defects, H.policy_graph,
    ← List.append_assoc]
  rfl

/-- The aborting policy records nothing. -/
theorem recorded_of_abort (H : History) (hpolicy : H.settings.policy = .abort) :
    H.recorded = [] := by
  obtain ⟨ms, faults, hms⟩ := H.journals
  rw [recorded, hms.defects]
  show [] ++ H.settings.policy.recorded faults = []
  rw [hpolicy]
  rfl

section unrecorded

variable (hH : H.recorded = [])
include hH

/-- As long as nothing is recorded the graph has no defects. -/
theorem defects_of_recorded_nil : H.graph.defects = #[] :=
  Array.toList_eq_nil_iff.1 (List.append_eq_nil_iff.1 hH).2

/-- If nothing was recorded before a command, what was recorded after it is what it leaves. -/
theorem recorded_andThen_of_nil :
    (H.andThen c).recorded = (H.graph.perform c).2.defects.toList := by
  obtain ⟨htaken, hdefects⟩ := List.append_eq_nil_iff.1 hH
  have htakenBy : takenBy (c, (H.graph.perform c).1) = [] := by
    by_cases hc : c = .takeDefects
    · subst hc
      exact hdefects
    · exact takenBy_of_ne hc
  rw [recorded, taken_andThen, graph_andThen, htaken, htakenBy]
  rfl

end unrecorded

/-- A defect that is noticed is the first one to be recorded. -/
theorem head?_recorded_of_notices {k : Graph} {node : Handle} {fault : Fault} {ms : List Message}
    {faults : List Fault} (hp : H.graph.policy = .report) (hH : H.recorded = [])
    (hk : H.graph.Notices c k node fault)
    (hrest : (k.note node fault).Journals (H.graph.perform c).2 ms faults []) :
    (H.andThen c).recorded.head? = some fault := by
  obtain ⟨ms', faults', hbefore⟩ := hk.journals
  have hnote : (k.note node fault).defects = #[fault] := by
    rw [k.defects_note_of_report node fault (hbefore.policy.trans hp), hk.clean,
      defects_of_recorded_nil hH]
    rfl
  have hdefects := hrest.defects
  rw [hnote] at hdefects
  rw [recorded_andThen_of_nil hH, ← List.nil_append (Array.toList _), hdefects]
  rfl

/-! ### Both policies, command by command -/

/-- Either no defect was recorded, and the histories are the same, or one was, and a command was
abandoned. -/
theorem same_or_abandoned (H : History) (hpolicy : H.settings.policy = .report) :
    (H.recorded = [] ∧ H.strict.transcript = H.transcript ∧ H.strict.graph = H.graph.strict ∧
      ¬ H.strict.Abandoned) ∨ H.recorded ≠ [] ∧ H.strict.Abandoned := by
  induction H using History.induction with
  | opened id settings =>
      refine Or.inl ⟨rfl, rfl, rfl, ?_⟩
      rintro ⟨step, hstep, -⟩
      cases hstep
  | andThen H c ih =>
      rw [strict_andThen]
      have hp : H.graph.policy = .report := H.policy_graph.trans hpolicy
      rcases ih hpolicy with ⟨hH, htranscript, hgraph, hnot⟩ | ⟨hH, step, hstep, habort⟩
      · have hcut := H.graph.perform_curtailed hp (defects_of_recorded_nil hH) c
        rw [← hgraph] at hcut
        generalize hresult : H.strict.graph.perform c = result at hcut
        cases hcut with
        | same hclean =>
            refine Or.inl ⟨?_, ?_, ?_, ?_⟩
            · rw [recorded_andThen_of_nil hH, hclean, defects_of_recorded_nil hH]
            · rw [transcript_andThen, hresult, htranscript, transcript_andThen]
            · rw [graph_andThen, hresult, graph_andThen]
            · rintro ⟨step, hstep, fault, habort⟩
              rw [transcript_andThen, hresult, List.mem_append, List.mem_singleton] at hstep
              rcases hstep with hstep | rfl
              · exact hnot ⟨step, hstep, fault, habort⟩
              · exact H.graph.perform_fst_ne_aborted hp c fault habort
        | cut hmoment hrest =>
            have hhead := head?_recorded_of_notices hp hH hmoment hrest
            refine Or.inr ⟨?_, ?_⟩
            · intro hnil
              rw [hnil] at hhead
              cases hhead
            · refine ⟨(c, (H.strict.graph.perform c).1), ?_, _, congrArg Prod.fst hresult⟩
              rw [transcript_andThen]
              exact List.mem_append_right _ (List.mem_singleton_self _)
      · refine Or.inr ⟨?_, step, ?_, habort⟩
        · obtain ⟨faults, hrec⟩ := H.exists_recorded_andThen c
          rw [hrec]
          exact List.append_ne_nil_of_left_ne_nil hH _
        · rw [transcript_andThen]
          exact List.mem_append_left _ hstep

/-- **The aborting policy is the reporting policy, cut at the first defect.** No defect was recorded
exactly if no command was abandoned under the aborting policy. Until then both histories had the
same outcomes, and their graphs differ in the policy only. A command that records the first defect
is abandoned with it, when the graph has come to be `k` and notices it at `node`: that is the graph
that is left, but for what is told of the defect. The messages up to there are a beginning of those
that there are under the other policy, and end with the one that tells of the defect. And nothing is
ever recorded under the aborting policy. -/
theorem strict_cuts (H : History) (hpolicy : H.settings.policy = .report) :
    (H.recorded = [] ↔ ¬ H.strict.Abandoned) ∧
    (H.recorded = [] → H.strict.transcript = H.transcript ∧ H.strict.graph = H.graph.strict) ∧
    (∀ c, H.recorded = [] → (H.andThen c).recorded ≠ [] → ∃ k node fault,
      H.graph.Notices c k node fault ∧
      (H.andThen c).recorded.head? = some fault ∧
      (H.strict.graph.perform c).1 = .aborted fault ∧
      (H.strict.andThen c).graph = k.strict.note node fault ∧
      (∀ h, (H.strict.andThen c).graph.get? h = k.get? h) ∧
      (H.strict.andThen c).graph.totals = k.totals ∧
      (H.strict.andThen c).graph.sink.received.toList <+:
        (H.andThen c).graph.sink.received.toList ∧
      (H.settings.sink.accepts .error →
        (H.strict.andThen c).graph.sink.received.back? = some (.defect node fault))) ∧
    H.strict.recorded = [] := by
  refine ⟨?_, ?_, ?_, H.strict.recorded_of_abort rfl⟩
  · rcases H.same_or_abandoned hpolicy with ⟨hH, -, -, hnot⟩ | ⟨hH, habandoned⟩
    · exact iff_of_true hH hnot
    · exact iff_of_false hH (not_not_intro habandoned)
  · intro hH
    rcases H.same_or_abandoned hpolicy with ⟨-, htranscript, hgraph, -⟩ | ⟨hne, -⟩
    · exact ⟨htranscript, hgraph⟩
    · exact absurd hH hne
  · intro c hH hne
    rcases H.same_or_abandoned hpolicy with ⟨-, -, hgraph, -⟩ | ⟨hne', -⟩
    · have hp : H.graph.policy = .report := H.policy_graph.trans hpolicy
      have hcut := H.graph.perform_curtailed hp (defects_of_recorded_nil hH) c
      rw [graph_andThen, graph_andThen, hgraph]
      generalize H.graph.strict.perform c = result at hcut
      cases hcut with
      | same hclean =>
          rw [recorded_andThen_of_nil hH, hclean, defects_of_recorded_nil hH] at hne
          exact absurd rfl hne
      | @cut k node fault ms faults hmoment hrest =>
          refine ⟨k, node, fault, hmoment, head?_recorded_of_notices hp hH hmoment hrest, rfl,
            rfl, ?_, ?_, ?_, ?_⟩
          · exact k.strict.get?_note node fault
          · exact k.strict.totals_note node fault
          · -- both graphs offer the same messages to the same sink until the defect is told of
            have hsink : (k.strict.note node fault).sink = (k.note node fault).sink := by
              rw [Graph.note_eq, Graph.note_eq]
              rfl
            rw [hsink, hrest.sink]
            exact Sink.received_prefix_foldl_deliver _ _
          · intro haccepts
            obtain ⟨_, _, hopened⟩ := H.journals
            obtain ⟨_, _, hbefore⟩ := hmoment.journals
            have htakes : k.sink.accepts .error := by
              rw [hbefore.accepts, hopened.accepts]
              exact haccepts
            have hsink : (k.strict.note node fault).sink = k.sink.deliver (.defect node fault) := by
              rw [Graph.note_eq]
              rfl
            rw [hsink, Sink.deliver_of_accepts htakes]
            exact Array.back?_push
    · exact absurd hH hne'

/-- A number that is added to itself, and from which a reference was taken that the sum accounts
for; the sum is held by a root. -/
def shortchanged : History where
  id := ⟨1⟩
  settings := ⟨.ofDestination .memory, .report⟩
  commands := [.intLiteral 7, .arithmetic .add [.ofSlot 1 0, .ofSlot 1 0], .root (.ofSlot 1 1),
    .decrement (.ofSlot 1 0)]

/-- When the sum goes there is one reference for two edges, and the aborting policy stops at the
second one. -/
theorem shortchanged_strict :
    shortchanged.settings.policy = .report ∧ shortchanged.recorded = [] ∧
      (shortchanged.andThen (.release ⟨.ofSlot 1 1⟩)).recorded ≠ [] ∧
      shortchanged.settings.sink.accepts .error ∧
      (shortchanged.strict.graph.perform (.release ⟨.ofSlot 1 1⟩)).1 =
        .aborted (.underflow (.ofSlot 1 0) 0) ∧
      (shortchanged.strict.andThen (.release ⟨.ofSlot 1 1⟩)).graph.sink.received.back?.map
        Message.text = some (Fault.underflow (.ofSlot 1 0) 0).message := by
  have hrun : ((Cascade.start (shortchanged.graph.unroot (.ofSlot 1 1)) (.ofSlot 1 1)).runWithin
      7).map (fun result => (result.1, result.2.defects)) =
        some (.done #[.ofSlot 1 1, .ofSlot 1 0], #[.underflow (.ofSlot 1 0) 0]) := by decide
  obtain ⟨⟨outcome, G⟩, hG, heq⟩ := Option.map_eq_some_iff.1 hrun
  obtain ⟨rfl, hdefects⟩ := Prod.mk.inj heq
  have hsum : shortchanged.graph.get? (.ofSlot 1 1) =
      some ⟨.arithmetic .add [.ofSlot 1 0, .ofSlot 1 0], .zero, true⟩ := by decide
  have hnone : shortchanged.recorded = [] := by decide
  have hone : (shortchanged.andThen (.release ⟨.ofSlot 1 1⟩)).recorded =
      [.underflow (.ofSlot 1 0) 0] := by
    rw [recorded_andThen_of_nil hnone, Graph.perform,
      Graph.release_of_runWithin (r := ⟨.ofSlot 1 1⟩) hsum rfl rfl hG]
    exact congrArg Array.toList hdefects
  obtain ⟨-, -, hcut, -⟩ := strict_cuts shortchanged rfl
  have hne : (shortchanged.andThen (.release ⟨.ofSlot 1 1⟩)).recorded ≠ [] := by simp [hone]
  obtain ⟨k, node, fault, -, hfirst, haborted, -, -, -, -, hlast⟩ := hcut _ hnone hne
  rw [hone] at hfirst
  obtain rfl := Option.some_inj.1 hfirst
  have haccepts : shortchanged.settings.sink.accepts .error := rfl
  refine ⟨rfl, hnone, hne, haccepts, haborted, ?_⟩
  rw [hlast haccepts]
  rfl

end History

end SharedExpr
