import SharedExpr.Proofs.Graph.Unfolding
import SharedExpr.Proofs.History.Evolution

/-!
# The expressions of a history

Nodes are ordered in every history, so what a handle stands for is a finite tree or nothing at all.

* `History.same_tree` — **two handles are the same expression exactly if they stand for the same
  tree**, whatever graphs they are in. This is an equivalence among the handles below which all is
  live, and the others are equal to nothing.
-/

namespace SharedExpr.History

variable {H K : History}

/-- **Comparing expressions is comparing trees.** Two handles of any two histories are the same
expression exactly if both can be written out in full and the trees are equal; comparing pair by
pair, without a table, comes to the same. So the order of the two plays no part, what is equal to
the same expression is equal, and a handle is equal to itself exactly if whatever it reaches is
live. That there are no cycles to write out rests on generations of slots that do not wrap round
(`SharedExpr.Store.Basic`). -/
theorem same_tree (H K : History) (a b : Handle) :
    (H.graph.sameExpression a K.graph b ↔
      ∃ t u, H.graph.StandsFor a t ∧ K.graph.StandsFor b u ∧ t = u) ∧
    (∃ rounds, H.graph.compareWithin K.graph rounds [(a, b)] =
      some (H.graph.sameExpression a K.graph b)) ∧
    (H.graph.sameExpression a K.graph b = K.graph.sameExpression b H.graph a) ∧
    (∀ (L : History) (c : Handle), H.graph.sameExpression a K.graph b →
      K.graph.sameExpression b L.graph c → H.graph.sameExpression a L.graph c) ∧
    (H.graph.sameExpression a H.graph a ↔ ∀ l, H.graph.Reaches a l → H.graph.contains l) := by
  have hiff : ∀ (H K : History) (a b : Handle), H.graph.sameExpression a K.graph b ↔
      ∃ t, H.graph.StandsFor a t ∧ K.graph.StandsFor b t := fun H _ _ _ =>
    H.ordered.sameExpression_iff_exists_standsFor
  refine ⟨?_, H.ordered.exists_compareWithin K.graph a b, ?_, ?_, ?_⟩
  · rw [hiff]
    constructor
    · rintro ⟨t, ha, hb⟩
      exact ⟨t, t, ha, hb, rfl⟩
    · rintro ⟨t, u, ha, hb, rfl⟩
      exact ⟨t, ha, hb⟩
  · rw [Bool.eq_iff_iff, hiff, hiff]
    exact exists_congr fun t => and_comm
  · intro L c hab hbc
    obtain ⟨t, ha, hb⟩ := (hiff H K a b).1 hab
    obtain ⟨u, hb', hc⟩ := (hiff K L b c).1 hbc
    obtain rfl := hb.unique hb'
    exact (hiff H L a c).2 ⟨t, ha, hc⟩
  · rw [hiff]
    simp only [and_self]
    exact H.ordered.whole_iff_exists_standsFor.symm

/-- A number that is added to itself. -/
def doubled : History where
  id := ⟨1⟩
  settings := .standard
  commands := [.intLiteral 7, .arithmetic .add [.ofSlot 1 0, .ofSlot 1 0]]

/-- Two equal numbers that are added. -/
def added : History where
  id := ⟨2⟩
  settings := .standard
  commands := [.intLiteral 7, .intLiteral 7, .arithmetic .add [.ofSlot 2 0, .ofSlot 2 1]]

/-- The sums are the same expression, though one has two nodes and the other has three. -/
theorem doubled_same_tree :
    doubled.graph.sameExpression (.ofSlot 1 1) added.graph (.ofSlot 2 2) := by
  have hseven : ∀ {H : History} {h : Handle}, H.graph.node? h = some (.intLiteral 7) →
      H.graph.StandsFor h (.node (.intLiteral 7) []) := fun hn =>
    Graph.standsFor_of_node? hn .nil
  have hsum : ∀ {H : History} {h l r : Handle}, H.graph.node? h = some (.arithmetic .add [l, r]) →
      H.graph.node? l = some (.intLiteral 7) → H.graph.node? r = some (.intLiteral 7) →
      H.graph.StandsFor h
        (.node (.arithmetic .add) [.node (.intLiteral 7) [], .node (.intLiteral 7) []]) :=
    fun hn hl hr => Graph.standsFor_of_node? hn (.cons (hseven hl) (.cons (hseven hr) .nil))
  have hdoubled := hsum (H := doubled) (h := .ofSlot 1 1) (l := .ofSlot 1 0) (r := .ofSlot 1 0)
    (by decide) (by decide) (by decide)
  have hadded := hsum (H := added) (h := .ofSlot 2 2) (l := .ofSlot 2 0) (r := .ofSlot 2 1)
    (by decide) (by decide) (by decide)
  obtain ⟨hiff, -⟩ := same_tree doubled added (.ofSlot 1 1) (.ofSlot 2 2)
  exact hiff.2 ⟨_, _, hdoubled, hadded, rfl⟩

end SharedExpr.History
