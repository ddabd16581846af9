import SharedExpr.Proofs.Cascade.Moves
import SharedExpr.Proofs.Graph.Sinks

/-!
# Releases and sinks

A cascade offers its messages one by one while the graph is between two states, and the last one may
be offered just before the policy abandons the release. None of this depends on who listens.

* `Cascade.step_withSink` — one step is the same with any sink, and offers the same messages.
* `Cascade.run_withSink` — **so is a cascade**, whether it is carried through or abandoned, and with
  it a release (`Graph.oblivious_release`).
-/

namespace SharedExpr

/-! ### Steps -/

/-- What a step comes to, with another sink. -/
def Progress.withSink (p : Progress) (s : Sink) : Progress :=
  match p with
  | .finished report g => .finished report (g.withSink s)
  | .aborted fault g => .aborted fault (g.withSink s)
  | .running c => .running { c with graph := c.graph.withSink s }

namespace Cascade

/-- A cascade in which the graph has another sink. -/
def withSink (c : Cascade) (s : Sink) : Cascade :=
  { c with graph := c.graph.withSink s }

/-- The edge that is dropped, or the node that is reclaimed, is told of by the same message. -/
theorem step_withSink (c : Cascade) : ∃ ms : List Message, ∀ s : Sink,
    (c.withSink s).step = c.step.withSink (ms.foldl Sink.deliver s) := by
  obtain ⟨g, _ | ⟨⟨parent, child⟩, edges⟩, pending, report⟩ := c
  · cases pending with
    | nil => exact ⟨[], fun s => rfl⟩
    | cons h pending =>
        rcases he : g.get? h with _ | e
        · refine ⟨[], fun s => ?_⟩
          simp only [step, withSink, Graph.get?_withSink, he]
          rfl
        · refine ⟨[.released h e.node.kind], fun s => ?_⟩
          simp only [step, withSink, Graph.get?_withSink, he, Graph.reclaim_withSink]
          rfl
  · have hfate : ∀ s, (g.withSink s).edgeFate parent child = g.edgeFate parent child :=
      fun s => rfl
    rcases hf : g.edgeFate parent child with ⟨count, rooted⟩ | fault
    · refine ⟨[.dereferenced child count.value], fun s => ?_⟩
      simp only [step, withSink, hfate, hf, Graph.lowerTo_withSink]
      rfl
    · refine ⟨[.defect child fault], fun s => ?_⟩
      cases hp : g.policy with
      | report =>
          simp only [step, withSink, hfate, hf, Graph.policy_withSink, hp, Graph.note_withSink]
          rfl
      | abort =>
          simp only [step, withSink, hfate, hf, Graph.policy_withSink, hp, Graph.note_withSink]
          rfl

/-- **A cascade is the same with any sink.** -/
theorem run_withSink (c : Cascade) : ∃ ms : List Message, ∀ s : Sink,
    (c.withSink s).run = (c.run.1, c.run.2.withSink (ms.foldl Sink.deliver s)) := by
  induction c using run.induct with
  | case1 c report g h =>
      obtain ⟨ms, hms⟩ := c.step_withSink
      refine ⟨ms, fun s => ?_⟩
      rw [run, hms, h, run, h]
      rfl
  | case2 c fault g h =>
      obtain ⟨ms, hms⟩ := c.step_withSink
      refine ⟨ms, fun s => ?_⟩
      rw [run, hms, h, run, h]
      rfl
  | case3 c next h ih =>
      obtain ⟨ms, hms⟩ := c.step_withSink
      obtain ⟨ms', hms'⟩ := ih
      refine ⟨ms ++ ms', fun s => ?_⟩
      have hnext := hms s
      rw [h] at hnext
      rw [run, hnext, run, h, List.foldl_append, ← hms']
      rfl

end Cascade

/-! ### Releases -/

namespace Graph

/-- Reclaiming a node and what only it keeps does not look at the sink. -/
theorem oblivious_reclaimFrom (g : Graph) (h : Handle) :
    Oblivious (fun g => g.reclaimFrom h) g := by
  obtain ⟨ms, hms⟩ := (Cascade.start g h).run_withSink
  refine ⟨ms, fun s => ?_⟩
  have hrun : (Cascade.start (g.withSink s) h).run = _ := hms s
  simp only [reclaimFrom, hrun]
  rcases (Cascade.start g h).run with ⟨report | fault | fault, G⟩ <;> rfl

/-- A release does not look at the sink. -/
theorem oblivious_release (g : Graph) (r : Root) : Oblivious (fun g => g.release r) g := by
  rcases he : g.get? r.node with _ | e
  · refine ⟨[], fun s => ?_⟩
    simp only [release, get?_withSink, he]
    rfl
  · by_cases hroot : e.rooted
    · by_cases hzero : e.count.isZero
      · obtain ⟨ms, hms⟩ := (g.setRooted r.node false).oblivious_reclaimFrom r.node
        refine ⟨ms, fun s => ?_⟩
        simp only [release, get?_withSink, he, hroot, hzero, setRooted_withSink, hms]
        rfl
      · refine ⟨[.unrooted r.node e.count.value], fun s => ?_⟩
        simp only [release, get?_withSink, he, hroot, hzero, setRooted_withSink]
        rfl
    · refine ⟨[], fun s => ?_⟩
      simp only [release, get?_withSink, he, hroot]
      rfl

end Graph

end SharedExpr
