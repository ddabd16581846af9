import SharedExpr.Print.Coloured
import SharedExpr.Proofs.History.Balance
import SharedExpr.Proofs.History.Issue
import SharedExpr.Proofs.Print.Depth
import SharedExpr.Proofs.Walk.Listing

/-!
# An expression that is held never changes

A live node is the one that was built with its handle, and its operands are those that it was built
with. As long as counts are sound they are live too, whatever else was released, and a node that
moves into a slot that was given up has another handle. So below a node that is live at two points
of a run the graph is the same at both.

* `History.agreesBelow_of_mem_past` — what a node reached before is what it reaches now.
* `History.expression_kept` — **what is seen of a node is the same at any two points of a run at
  which it is live**: it is the same expression, its listings are the same, and so is its text.
-/

namespace SharedExpr.History

variable {H K : History} {h l : Handle}

/-- What is live at two points of a run names the same node at both. -/
theorem node?_eq_of_mem_past (hK : K ∈ H.past) (hk : K.graph.contains h)
    (hh : H.graph.contains h) : H.graph.node? h = K.graph.node? h := by
  obtain ⟨n, hn⟩ := Graph.contains_iff_node?.1 hh
  rw [hn, node?_of_mem_past hK (Graph.issued_of_contains hk) hn]

section sound

variable (hksound : K.graph.Sound fun _ => 0) (hsound : H.graph.Sound fun _ => 0)
include hksound hsound

/-- What a node reached before is still live if the node is. -/
theorem contains_of_reaches_before (hK : K ∈ H.past) (hk : K.graph.contains h)
    (hh : H.graph.contains h) (hl : K.graph.Reaches h l) : H.graph.contains l := by
  induction hl with
  | refl => exact hh
  | @tail p c hp hpc ih =>
      -- the parent is the same node as before, and so has the same operands
      have hnode := node?_eq_of_mem_past hK (hksound.contains_of_reaches hk hp) ih
      apply hsound.live p
      rwa [Graph.mem_edges_iff, Graph.childrenOf_congr hnode, ← Graph.mem_edges_iff]

/-- **What a node reached before is what it reaches now.** -/
theorem agreesBelow_of_mem_past (hK : K ∈ H.past) (hk : K.graph.contains h)
    (hh : H.graph.contains h) : K.graph.AgreesBelow H.graph h :=
  fun _ hl => node?_eq_of_mem_past hK (hksound.contains_of_reaches hk hl)
    (contains_of_reaches_before hksound hsound hK hk hh hl)

end sound

/-- **An expression that is held never changes.** In a history without direct references a node that
is live at some point and at the end is the same expression at both, its two listings are carried
through and are the same, and so are its texts for every width, plain and in colours. That a handle
does not come to name another node rests on generations of slots that do not wrap round
(`SharedExpr.Store.Basic`). -/
theorem expression_kept (H : History) (hdirect : ∀ c ∈ H.commands, c.countsDirectly = false)
    (hsat : H.NeverSaturated) :
    ∀ K ∈ H.past, ∀ h, K.graph.contains h → H.graph.contains h →
      K.graph.sameExpression h H.graph h ∧
      (K.graph.reachable h).ending = .finished ∧ H.graph.reachable h = K.graph.reachable h ∧
      (K.graph.postorder h).ending = .finished ∧ H.graph.postorder h = K.graph.postorder h ∧
      ∀ width, H.graph.print width h = K.graph.print width h ∧
        H.graph.printColoured width h = K.graph.printColoured width h := by
  intro K hK h hk hh
  have hksound := (K.balanced (not_counts_of_mem_past hdirect hK) (hsat.of_mem_past hK)).sound
  have hagree := agreesBelow_of_mem_past hksound (H.balanced hdirect hsat).sound hK hk hh
  have hwhole : K.graph.Whole h := fun l hl => hksound.contains_of_reaches hk hl
  have hdoc := Graph.doc_of_agreesBelow hagree
  refine ⟨K.ordered.sameExpression_of_agreesBelow hwhole hagree, hwhole.reachable_finished,
    Graph.reachable_of_agreesBelow hagree, hwhole.postorder_finished,
    Graph.postorder_of_agreesBelow hagree, fun width => ⟨?_, ?_⟩⟩
  · rw [Graph.print, hdoc, Graph.print]
  · rw [Graph.printColoured, Graph.penCalls, hdoc, Graph.printColoured, Graph.penCalls]

/-- A number that is added to itself, and a call of a function on it that is rooted. -/
def applied : History where
  id := ⟨1⟩
  settings := .standard
  commands := [.intLiteral 7, .arithmetic .add [.ofSlot 1 0, .ofSlot 1 0],
    .call "f" [.ofSlot 1 0], .root (.ofSlot 1 2)]

/-- The call is given up, and a variable moves into its slot. -/
def withdrawn : History :=
  (applied.andThen (.release ⟨.ofSlot 1 2⟩)).andThen (.varUse "y")

/-- The sum is what it was when the call was there, and is printed as it was. -/
theorem withdrawn_sum_kept :
    (∀ c ∈ withdrawn.commands, c.countsDirectly = false) ∧ withdrawn.NeverSaturated ∧
      applied ∈ withdrawn.past ∧ withdrawn.graph.contains ⟨⟨1⟩, some ⟨2, 1⟩⟩ ∧
      applied.graph.contains (.ofSlot 1 1) ∧ withdrawn.graph.contains (.ofSlot 1 1) ∧
      applied.graph.sameExpression (.ofSlot 1 1) withdrawn.graph (.ofSlot 1 1) ∧
      withdrawn.graph.print 80 (.ofSlot 1 1) = applied.graph.print 80 (.ofSlot 1 1) := by
  -- in the graph without the call, and in the one with the variable, there is room for references
  have hrun : ((Cascade.start (applied.graph.unroot (.ofSlot 1 2)) (.ofSlot 1 2)).runWithin
      5).map (fun result => (result.1,
        decide (∀ p ∈ result.2.entries, p.2.count.value < Count.max),
        let G := ((result.2.write .debug (Graph.releaseRecord (.ofSlot 1 2) 1
          result.2.size)).perform (.varUse "y")).2
        (decide (∀ p ∈ G.entries, p.2.count.value < Count.max),
          G.contains (.ofSlot 1 1), G.contains ⟨⟨1⟩, some ⟨2, 1⟩⟩))) =
        some (.done #[.ofSlot 1 2], true, true, true, true) := by decide
  obtain ⟨⟨outcome, G⟩, hG, heq⟩ := Option.map_eq_some_iff.1 hrun
  obtain ⟨rfl, heq⟩ := Prod.mk.inj heq
  obtain ⟨hbetween, heq⟩ := Prod.mk.inj heq
  obtain ⟨hend, heq⟩ := Prod.mk.inj heq
  obtain ⟨hsum, hvar⟩ := Prod.mk.inj heq
  have hcall : applied.graph.get? (.ofSlot 1 2) =
      some ⟨.call "f" [.ofSlot 1 0], .zero, true⟩ := by decide
  have hrel := graph_andThen_release (r := ⟨.ofSlot 1 2⟩) hcall rfl rfl hG
  have hgraph : withdrawn.graph = ((G.write .debug (Graph.releaseRecord (.ofSlot 1 2) 1
      G.size)).perform (.varUse "y")).2 := by
    rw [withdrawn, graph_andThen, hrel]
    rfl
  have hsat : withdrawn.NeverSaturated := by
    have hbefore : applied.NeverSaturated := by decide
    refine (hbefore.andThen ?_).andThen ?_
    · rw [hrel]
      exact of_decide_eq_true hbetween
    · show ∀ p ∈ withdrawn.graph.entries, _
      rw [hgraph]
      exact of_decide_eq_true hend
  have hdirect : ∀ c ∈ withdrawn.commands, c.countsDirectly = false := by decide
  have hpast : applied ∈ withdrawn.past := past_trans mem_past_andThen mem_past_andThen
  have hbefore : applied.graph.contains (.ofSlot 1 1) := by decide
  rw [← hgraph] at hsum hvar
  obtain ⟨hsame, -, -, -, -, hprint⟩ :=
    expression_kept withdrawn hdirect hsat applied hpast (.ofSlot 1 1) hbefore hsum
  exact ⟨hdirect, hsat, hpast, hvar, hbefore, hsum, hsame, (hprint 80).1⟩

end SharedExpr.History
