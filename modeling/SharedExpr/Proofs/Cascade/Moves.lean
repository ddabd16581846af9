import Mathlib.Logic.Relation
import SharedExpr.Graph.Release

/-!
# The moves of a cascade

What one step of a cascade can do is said once, by `Cascade.Move`: lower the count of a child, tell
of a defect, reclaim a node, or skip a handle that is not live. Every invariant of cascades is a
case analysis over these four.

* `Cascade.move_of_step` — a step that goes on is a move.
* `Cascade.exists_moves_ends` — **a run is a number of moves and an end**: its natural end, with
  nothing left to do, or the defect at which the policy abandoned it.
* `Cascade.Moves.keep` — what every move keeps, a run keeps.
* `Cascade.runWithin`, `Cascade.exists_runWithin` — runs of at most so many steps, by recursion on
  the number; every run is one of them.
-/

namespace SharedExpr

/-! ### The two fates of an edge -/

namespace Graph

variable {g : Graph} {parent child : Handle}

/-- The reference of an edge is taken away exactly if the child is live and has one. -/
theorem edgeFate_eq_lowered_iff {count : Count} {rooted : Bool} :
    g.edgeFate parent child = .lowered count rooted ↔
      ∃ e, g.get? child = some e ∧ e.count.decrement? = some count ∧ e.rooted = rooted := by
  unfold edgeFate
  split
  · rename_i he
    simp [he]
  · rename_i e he
    split
    · rename_i d hd
      simp [he, hd]
    · rename_i hd
      simp [he, hd]

/-- A defective edge leads to a node that is gone or whose count is zero. -/
theorem of_edgeFate_eq_defective {fault : Fault}
    (h : g.edgeFate parent child = .defective fault) :
    g.get? child = none ∧ fault = .danglingEdge parent child ∨
      ∃ e, g.get? child = some e ∧ e.count.value = 0 ∧ fault = .underflow child 0 := by
  unfold edgeFate at h
  split at h
  · rename_i he
    cases h
    exact Or.inl ⟨he, rfl⟩
  · rename_i e he
    split at h
    · cases h
    · rename_i hd
      have hz := Count.decrement?_eq_none_iff.1 hd
      cases h
      exact Or.inr ⟨e, he, hz, by rw [hz]⟩

end Graph

namespace Cascade

/-! ### Moves -/

/-- What a step of a cascade that goes on can do. -/
inductive Move : Cascade → Cascade → Prop
  /-- A child loses a reference. If that was its last one and it is not rooted, it has to go. -/
  | lower {g parent child edges pending report e count} (he : g.get? child = some e)
      (hc : e.count.decrement? = some count) :
      Move ⟨g, (parent, child) :: edges, pending, report⟩
        ⟨g.lowerTo child count, edges,
          if count.isZero && !e.rooted then child :: pending else pending, report⟩
  /-- An edge turns out to be a defect, and the policy is to go on. -/
  | defect {g parent child edges pending report fault}
      (hf : g.edgeFate parent child = .defective fault) (hp : g.policy = .report) :
      Move ⟨g, (parent, child) :: edges, pending, report⟩
        ⟨g.note child fault, edges, pending, report⟩
  /-- The next node is reclaimed. -/
  | reclaim {g h pending report e} (he : g.get? h = some e) :
      Move ⟨g, [], h :: pending, report⟩
        ⟨g.reclaim h e.node.kind, e.node.children.map fun child => (h, child), pending,
          report.push h⟩
  /-- The next node is not live. -/
  | skip {g h pending report} (he : g.get? h = none) :
      Move ⟨g, [], h :: pending, report⟩ ⟨g, [], pending, report⟩

/-- Any number of moves. -/
def Moves : Cascade → Cascade → Prop :=
  Relation.ReflTransGen Move

variable {c d : Cascade}

/-- A step after which the cascade goes on is one of the moves. -/
theorem move_of_step (h : c.step = .running d) : Move c d := by
  unfold step at h
  split at h
  · split at h
    · rename_i count rooted hf
      obtain ⟨e, he, hc, rfl⟩ := Graph.edgeFate_eq_lowered_iff.1 hf
      cases h
      exact .lower he hc
    · rename_i fault hf
      split at h
      · rename_i hp
        cases h
        exact .defect hf hp
      · cases h
  · split at h
    · rename_i e he
      cases h
      exact .reclaim he
    · rename_i he
      cases h
      exact .skip he
  · cases h

/-- A cascade is finished when no edge and no node is left to be dealt with. -/
theorem of_step_eq_finished {report : Array Handle} {g : Graph}
    (h : c.step = .finished report g) : c = ⟨g, [], [], report⟩ := by
  unfold step at h
  split at h
  · split at h
    · cases h
    · split at h <;> cases h
  · split at h <;> cases h
  · cases h
    rfl

/-- A cascade is aborted by a defective edge under the aborting policy, after the defect was
noted. -/
theorem of_step_eq_aborted {fault : Fault} {g : Graph} (h : c.step = .aborted fault g) :
    c.graph.policy = .abort ∧ ∃ parent child edges, c.edges = (parent, child) :: edges ∧
      c.graph.edgeFate parent child = .defective fault ∧ g = c.graph.note child fault := by
  unfold step at h
  split at h
  · rename_i g' parent child edges pending report
    split at h
    · cases h
    · rename_i fault' hf
      split at h
      · cases h
      · rename_i hp
        cases h
        exact ⟨hp, parent, child, edges, rfl, hf, rfl⟩
  · split at h <;> cases h
  · cases h

/-! ### Runs -/

/-- Where a run ends: with nothing left to do, or at a defect under the aborting policy. -/
inductive Ends (c : Cascade) : Outcome (Array Handle) × Graph → Prop
  /-- There is no edge to drop and no node to reclaim. -/
  | finished (he : c.edges = []) (hp : c.pending = []) : Ends c (.done c.report, c.graph)
  /-- The next edge is a defect. -/
  | aborted {parent child edges fault} (hp : c.graph.policy = .abort)
      (he : c.edges = (parent, child) :: edges)
      (hf : c.graph.edgeFate parent child = .defective fault) :
      Ends c (.aborted fault, c.graph.note child fault)

/-- A run is a number of moves and an end. -/
theorem exists_moves_ends (c : Cascade) : ∃ d, Moves c d ∧ Ends d c.run := by
  induction c using run.induct with
  | case1 c report g h =>
      rw [run, h]
      obtain rfl := of_step_eq_finished h
      exact ⟨_, .refl, .finished rfl rfl⟩
  | case2 c fault g h =>
      rw [run, h]
      obtain ⟨hp, parent, child, edges, he, hf, rfl⟩ := of_step_eq_aborted h
      exact ⟨c, .refl, .aborted hp he hf⟩
  | case3 c next h ih =>
      rw [run, h]
      obtain ⟨d, hd, hend⟩ := ih
      exact ⟨d, .head (move_of_step h) hd, hend⟩

/-- What every move keeps, any number of moves keeps. -/
theorem Moves.keep {P : Cascade → Prop} (hmove : ∀ {c d}, P c → Move c d → P d)
    (hcd : Moves c d) (hc : P c) : P d := by
  induction hcd with
  | refl => exact hc
  | tail _ hstep ih => exact hmove ih hstep

/-! ### Runs in a number of steps -/

/-- The steps taken to the end, if there are no more than `n`. -/
def runWithin : (n : Nat) → Cascade → Option (Outcome (Array Handle) × Graph)
  | 0, _ => none
  | n + 1, c =>
    match c.step with
    | .finished report g => some (.done report, g)
    | .aborted fault g => some (.aborted fault, g)
    | .running next => next.runWithin n

/-- A run can be computed step by step. -/
theorem run_eq_of_runWithin {n : Nat} {result : Outcome (Array Handle) × Graph}
    (h : c.runWithin n = some result) : c.run = result := by
  induction n generalizing c with
  | zero => cases h
  | succ n ih =>
      rw [runWithin] at h
      rw [run]
      split at h
      · rename_i hstep
        rw [hstep]
        exact Option.some_inj.1 h
      · rename_i hstep
        rw [hstep]
        exact Option.some_inj.1 h
      · rename_i hstep
        rw [hstep]
        exact ih h

/-- Every run takes a number of steps. -/
theorem exists_runWithin (c : Cascade) : ∃ n, c.runWithin n = some c.run := by
  induction c using run.induct with
  | case1 c report g h => exact ⟨1, by rw [runWithin, run, h]⟩
  | case2 c fault g h => exact ⟨1, by rw [runWithin, run, h]⟩
  | case3 c next h ih =>
      obtain ⟨n, hn⟩ := ih
      refine ⟨n + 1, ?_⟩
      rw [runWithin, run, h]
      exact hn

end Cascade

end SharedExpr
