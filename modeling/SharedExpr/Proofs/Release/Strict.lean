import SharedExpr.Command
import SharedExpr.Proofs.Release.Journal

/-!
# The aborting policy, step by step

What a graph does depends on its policy only when a defect is noticed. Until then the graph with the
other policy does the same, and the aborting graph stops where the reporting one notices its first
defect.

* `Graph.strict` — the graph with the aborting policy. All changes of entries commute with it.
* `Graph.Curtailed` — what an operation comes to under the aborting policy is what it comes to under
  the reporting one, or is that cut at a defect.
* `Cascade.StopsAt` — the state in which a cascade has come to its first defect.
* `Cascade.run_curtailed` — **so a cascade is curtailed there**, and with it a release
  (`Graph.release_curtailed`).
-/

namespace SharedExpr

/-! ### Changes under the aborting policy -/

namespace Graph

/-- The graph with the aborting policy. -/
def strict (g : Graph) : Graph :=
  { g with policy := .abort }

variable (g : Graph) (h : Handle)

/-- The policy makes no difference to the entries. -/
@[simp] theorem get?_strict : g.strict.get? h = g.get? h := rfl

/-- The policy is the aborting one. -/
@[simp] theorem policy_strict : g.strict.policy = .abort := rfl

/-- The policy makes no difference to a change of an entry. -/
theorem strict_modify (f : Entry → Entry) : g.strict.modify h f = (g.modify h f).strict := by
  unfold modify strict
  dsimp only
  split
  · split <;> rfl
  · rfl

/-- The policy makes no difference to the removal of a node. -/
theorem strict_remove : g.strict.remove h = (g.remove h).strict := by
  unfold remove strict
  dsimp only
  split
  · split <;> rfl
  · rfl

/-- The policy makes no difference to a mark. -/
theorem strict_setRooted (rooted : Bool) :
    g.strict.setRooted h rooted = (g.setRooted h rooted).strict :=
  g.strict_modify h _

/-- The policy makes no difference to a reference that is taken away. -/
theorem strict_lowerTo (count : Count) :
    g.strict.lowerTo h count = (g.lowerTo h count).strict := by
  rw [lowerTo, strict_modify]
  rfl

/-- The policy makes no difference to a count that is raised. -/
theorem strict_raiseTo (count : Count) :
    g.strict.raiseTo h count = (g.raiseTo h count).strict := by
  rw [raiseTo, strict_modify]
  rfl

/-- The policy makes no difference to a reference that is added. -/
theorem strict_raise : g.strict.raise h = (g.raise h).strict := by
  unfold raise
  rw [get?_strict]
  split
  · rw [strict_raiseTo]
  · rfl

/-- The policy makes no difference to reclaiming a node. -/
theorem strict_reclaim (kind : Kind) : g.strict.reclaim h kind = (g.reclaim h kind).strict := by
  rw [reclaim, strict_remove]
  rfl

/-- The policy makes no difference to a direct reference. -/
theorem strict_increment :
    g.strict.increment h = ((g.increment h).1, (g.increment h).2.strict) := by
  unfold increment
  rw [get?_strict]
  split
  · rw [strict_raiseTo]
  · rfl

/-- The policy makes no difference to a root. -/
theorem strict_root : g.strict.root h = ((g.root h).1, (g.root h).2.strict) := by
  unfold root
  rw [get?_strict]
  split
  · rfl
  · split
    · rfl
    · rw [strict_setRooted]
      rfl

/-- The policy makes no difference to references that are added. -/
theorem strict_foldl_raise (hs : List Handle) (g : Graph) :
    hs.foldl raise g.strict = (hs.foldl raise g).strict := by
  induction hs generalizing g with
  | nil => rfl
  | cons h hs ih => rw [List.foldl_cons, strict_raise, ih, List.foldl_cons]

/-- The policy makes no difference to a construction. -/
theorem strict_build (node : Node) :
    g.strict.build node = ((g.build node).1, (g.build node).2.strict) := by
  unfold build
  simp only [contains, get?_strict]
  split
  · rfl
  · exact congrArg (Prod.mk _) (strict_foldl_raise node.children (g.add node).2)

/-! ### Operations that are cut -/

/-- What an operation of `g` comes to under the aborting policy, if it comes to `result` under the
reporting one. `Moment k node fault` says when a defect can be the first one to be noticed: in the
graph `k`, at `node`. -/
inductive Curtailed {α : Type} (g : Graph) (Moment : Graph → Handle → Fault → Prop)
    (result : Outcome α × Graph) : Outcome α × Graph → Prop
  /-- No defect is recorded, and the policy makes no difference. -/
  | same (hclean : result.2.defects = g.defects) :
      Curtailed g Moment result (result.1, result.2.strict)
  /-- The first defect is the end, while under the other policy there may be more to come. -/
  | cut {k node fault ms faults} (hmoment : Moment k node fault)
      (hrest : (k.note node fault).Journals result.2 ms faults []) :
      Curtailed g Moment result (.aborted fault, k.strict.note node fault)

/-- An operation that notices no defect is not cut. -/
theorem Curtailed.of_strict {α : Type} {g : Graph} {Moment : Graph → Handle → Fault → Prop}
    {result result' : Outcome α × Graph} (hsame : result' = (result.1, result.2.strict))
    (hjournals : ∃ ms, g.Journals result.2 ms [] []) : g.Curtailed Moment result result' := by
  obtain ⟨ms, hms⟩ := hjournals
  rw [hsame]
  exact .same hms.defects_eq

/-- An outcome told as a reply is cut short in the same way. -/
theorem Curtailed.replying {α : Type} {g : Graph} {Moment : Graph → Handle → Fault → Prop}
    {result result' : Outcome α × Graph} (hc : g.Curtailed Moment result result')
    (reply : α → Reply) :
    g.Curtailed Moment (replying reply result) (replying reply result') := by
  cases hc with
  | same hclean => exact .same hclean
  | cut hmoment hrest => exact .cut hmoment hrest

end Graph

/-! ### Cascades -/

namespace Cascade

/-- The cascade with the aborting policy. -/
def strict (c : Cascade) : Cascade :=
  { c with graph := c.graph.strict }

/-- The state `d` in which a cascade has come to its first defect, noticed at `child`. -/
structure StopsAt (c d : Cascade) (child : Handle) (fault : Fault) : Prop where
  /-- The cascade gets there. -/
  moves : Moves c d
  /-- No defect was recorded on the way. -/
  clean : d.graph.defects = c.graph.defects
  /-- The next edge is a defect. -/
  next : ∃ parent edges, d.edges = (parent, child) :: edges ∧
    d.graph.edgeFate parent child = .defective fault

variable {c d : Cascade} {child : Handle} {fault : Fault}

/-- A step is the same under the aborting policy, or it notices a defect. -/
theorem step_strict (hstep : c.step = .running d) :
    (d.graph.defects = c.graph.defects ∧ c.strict.step = .running d.strict) ∨
      ∃ parent child edges fault, c.edges = (parent, child) :: edges ∧
        c.graph.edgeFate parent child = .defective fault ∧ d.graph = c.graph.note child fault := by
  cases move_of_step hstep with
  | @lower g parent child edges pending report e count he hc =>
      have hfate : g.strict.edgeFate parent child = .lowered count e.rooted :=
        Graph.edgeFate_eq_lowered_iff.2 ⟨e, he, hc, rfl⟩
      refine Or.inl ⟨g.defects_lowerTo child count, ?_⟩
      simp only [step, strict, hfate, Graph.strict_lowerTo]
  | defect hf hp => exact Or.inr ⟨_, _, _, _, rfl, hf, rfl⟩
  | @reclaim g h pending report e he =>
      refine Or.inl ⟨g.defects_reclaim h _, ?_⟩
      simp only [step, strict, Graph.get?_strict, he, Graph.strict_reclaim]
  | skip he =>
      refine Or.inl ⟨rfl, ?_⟩
      simp only [step, strict, Graph.get?_strict, he]

/-- A cascade comes to what is left of it after a step comes to. -/
theorem run_of_step (hstep : c.step = .running d) : c.run = d.run := by
  rw [run, hstep]

/-- At a defect the aborting policy stops. -/
theorem run_strict_of_defect {parent : Handle} {edges : List (Handle × Handle)}
    (hedges : c.edges = (parent, child) :: edges)
    (hf : c.graph.edgeFate parent child = .defective fault) :
    c.strict.run = (.aborted fault, c.graph.strict.note child fault) := by
  obtain ⟨g, _, pending, report⟩ := c
  obtain rfl : _ = (parent, child) :: edges := hedges
  have hfate : g.strict.edgeFate parent child = .defective fault := hf
  have hstep : (strict ⟨g, (parent, child) :: edges, pending, report⟩).step =
      .aborted fault (g.strict.note child fault) := by
    simp only [step, strict, hfate, Graph.policy_strict]
  rw [run, hstep]

/-- **Under the aborting policy a cascade is cut at its first defect**, if there is one. -/
theorem run_curtailed (c : Cascade) (hp : c.graph.policy = .report) :
    c.graph.Curtailed (fun k node fault => ∃ d, c.StopsAt d node fault ∧ k = d.graph) c.run
      c.strict.run := by
  induction c using run.induct with
  | case1 c report g hstep =>
      obtain rfl := of_step_eq_finished hstep
      have hrun : run ⟨g, [], [], report⟩ = (.done report, g) := by
        rw [run, hstep]
      have hstrict : (strict ⟨g, [], [], report⟩).run = (.done report, g.strict) := by
        rw [run]
        rfl
      rw [hrun, hstrict]
      exact .same rfl
  | case2 c fault g hstep =>
      obtain ⟨habort, -⟩ := of_step_eq_aborted hstep
      cases hp.symm.trans habort
  | case3 c next hstep ih =>
      have hmove := move_of_step hstep
      rw [run_of_step hstep]
      rcases step_strict hstep with ⟨hclean, hstrict⟩ | ⟨parent, child, edges, fault, he, hf, hg⟩
      · have hpnext : next.graph.policy = .report := hmove.evolves.policy.trans hp
        rw [run_of_step hstrict]
        have hnext := ih hpnext
        generalize next.strict.run = result at hnext
        cases hnext with
        | same hsame => exact .same (hsame.trans hclean)
        | cut hmoment hrest =>
            obtain ⟨d, hstop, rfl⟩ := hmoment
            exact .cut ⟨d, ⟨.head hmove hstop.moves, hstop.clean.trans hclean, hstop.next⟩, rfl⟩
              hrest
      · -- the defect is noticed in this step, and the reporting policy goes on
        obtain ⟨ms, faults, hrest⟩ := next.run_journals
        rw [hg] at hrest
        rw [run_strict_of_defect he hf]
        exact .cut ⟨c, ⟨.refl, rfl, parent, edges, he, hf⟩, rfl⟩ hrest

end Cascade

/-! ### Commands -/

namespace Graph

variable {g k : Graph} {h node : Handle} {r : Root} {c : Command} {fault : Fault}

/-- In the course of a command of `g` the graph comes to be `k` and notices a defect at `node`, the
first one since the command began. -/
inductive Notices (g : Graph) : Command → Graph → Handle → Fault → Prop
  /-- A reference is taken from a node that has none. -/
  | decrement {h e} (he : g.get? h = some e) (hzero : e.count.value = 0) :
      Notices g (.decrement h) g h (.underflow h 0)
  /-- An edge is dropped in the cascade of a release. -/
  | release {r e d child fault} (he : g.get? r.node = some e) (hroot : e.rooted = true)
      (hzero : e.count.value = 0)
      (hstop : (Cascade.start (g.unroot r.node) r.node).StopsAt d child fault) :
      Notices g (.release r) d.graph child fault

/-- No defect was recorded before the first one. -/
theorem Notices.clean (hk : g.Notices c k node fault) : k.defects = g.defects := by
  cases hk with
  | decrement he hzero => rfl
  | @release r _ _ _ _ _ _ _ hstop => exact hstop.clean.trans (g.defects_setRooted r.node false)

/-- What is told until the first defect is noticed. -/
theorem Notices.journals (hk : g.Notices c k node fault) :
    ∃ ms faults, g.Journals k ms faults [] := by
  cases hk with
  | decrement he hzero => exact ⟨[], [], .refl g⟩
  | @release r e d _ _ he _ _ hstop =>
      apply journals_of_moves he hstop.moves
      rintro rfl
      obtain ⟨parent, edges, hedges, -⟩ := hstop.next
      cases hedges

/-- Taking a reference away directly is cut short by an underflow. -/
theorem decrement_curtailed (g : Graph) (h : Handle) :
    g.Curtailed (g.Notices (.decrement h)) (g.decrement h) (g.strict.decrement h) := by
  unfold decrement
  rw [get?_strict]
  split
  · exact .same rfl
  · rename_i e he
    split
    · rw [strict_lowerTo]
      exact .same (g.defects_lowerTo h _)
    · rename_i hnone
      have hzero := Count.decrement?_eq_none_iff.1 hnone
      rw [hzero]
      exact .cut (.decrement he hzero) (.refl _)

/-- A cascade is cut short by the first defect that it comes to. -/
theorem reclaimFrom_curtailed (g : Graph) (h : Handle) (hp : g.policy = .report) :
    g.Curtailed (fun k node fault => ∃ d, (Cascade.start g h).StopsAt d node fault ∧ k = d.graph)
      (g.reclaimFrom h) (g.strict.reclaimFrom h) := by
  have hrun : g.Curtailed _ (Cascade.start g h).run (Cascade.start g.strict h).run :=
    (Cascade.start g h).run_curtailed hp
  unfold reclaimFrom
  generalize (Cascade.start g h).run = result at hrun
  generalize (Cascade.start g.strict h).run = result' at hrun
  obtain ⟨outcome, G⟩ := result
  cases hrun with
  | same hclean =>
      cases outcome with
      | done report => exact .same hclean
      | refused fault => exact .same hclean
      | aborted fault => exact .same hclean
  | cut hmoment hrest =>
      cases outcome with
      | done report => exact .cut hmoment (hrest.trans (G.journals_write _))
      | refused fault => exact .cut hmoment hrest
      | aborted fault => exact .cut hmoment hrest

/-- **A release is cut at the first defect of its cascade**, if there is one. -/
theorem release_curtailed (g : Graph) (r : Root) (hp : g.policy = .report) :
    g.Curtailed (g.Notices (.release r)) (g.release r) (g.strict.release r) := by
  unfold release
  rw [get?_strict]
  split
  · exact .same rfl
  · rename_i e he
    split
    · rename_i hroot
      rw [strict_setRooted]
      dsimp only
      split
      · rename_i hz
        have hzero := Count.isZero_iff.1 hz
        have hpun : (g.unroot r.node).policy = .report := (g.policy_setRooted r.node false).trans hp
        have hcascade := (g.unroot r.node).reclaimFrom_curtailed r.node hpun
        show g.Curtailed _ ((g.unroot r.node).reclaimFrom r.node)
          ((g.unroot r.node).strict.reclaimFrom r.node)
        generalize (g.unroot r.node).strict.reclaimFrom r.node = result at hcascade
        cases hcascade with
        | same hclean => exact .same (hclean.trans (g.defects_setRooted r.node false))
        | cut hmoment hrest =>
            obtain ⟨d, hstop, rfl⟩ := hmoment
            exact .cut (.release he hroot hzero hstop) hrest
      · exact .same (g.defects_setRooted r.node false)
    · exact .same rfl

end Graph

end SharedExpr
