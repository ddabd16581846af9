import SharedExpr.Proofs.History.Acyclic
import SharedExpr.Proofs.History.Printing
import SharedExpr.Proofs.Walk.Order

/-!
# The listings of a history

In every history nodes are ordered, so what is below a handle is a tree, and the two listings are
what the tree lists: the one in pre-order, the other in post-order, each without what was listed
before. Where operands are gone the tree has edges that lead to nothing, and both listings fail at
the first one.

* `Graph.Ordered.listings_cases` — how the listings of an ordered graph end.
* `History.reachable_preorder` — **the first listing is pre-order without repetitions**.
* `History.postorder_emits` — **the second is post-order without repetitions**: an order in which
  each node comes after all that it is made of.
-/

namespace SharedExpr

namespace Graph

variable {g : Graph} {h : Handle}

/-- How the two listings of an ordered graph end: with a start that is not live, below which there
is an edge to a node that is not live, or below which all is live. -/
theorem Ordered.listings_cases (hg : g.Ordered) (h : Handle) :
    (¬ g.contains h ∧ (g.reachable h).ending = .failed (.unknownNode h) ∧
      (g.postorder h).ending = .failed (.unknownNode h)) ∨
    (g.contains h ∧ ∃ p c, hg.firstDangling h = some (p, c) ∧
      (g.reachable h).ending = .failed (.danglingEdge p c) ∧
      (g.postorder h).ending = .failed (.danglingEdge p c)) ∨
    (g.contains h ∧ hg.firstDangling h = none ∧
      ((g.reachable h).ending = .finished ∧
        (g.reachable h).state.toList = (hg.expansion h).preorder.eraseDups) ∧
      (g.postorder h).ending = .finished ∧
        (g.postorder h).state.toList = (hg.expansion h).postorder.eraseDups) := by
  by_cases hh : g.contains h
  · have hpre := hg.walk_of_lister (Listing.lister_preorder g) hh
      (g.reachable_ending_ne_outOfFuel h)
    have hpost := hg.walk_of_lister (Listing.lister_postorder g) hh
      (g.postorder_ending_ne_outOfFuel h)
    rcases hfirst : hg.firstDangling h with _ | ⟨p, c⟩
    · exact .inr (.inr ⟨hh, rfl, hpre.2 hfirst, hpost.2 hfirst⟩)
    · exact .inr (.inl ⟨hh, p, c, rfl, hpre.1 p c hfirst, hpost.1 p c hfirst⟩)
  · refine .inl ⟨hh, ?_, ?_⟩
    · rw [reachable, Nat.add_comm, walk_of_not_contains hh]
      rfl
    · rw [postorder, Nat.add_assoc, Nat.add_comm, walk_of_not_contains hh]
      rfl

end Graph

namespace History

/-- The history in which a sum has lost the number that it names. -/
def orphaned : History :=
  abandoned.andThen (.release ⟨.ofSlot 1 0⟩)

/-- The sum is live and names the number, which is gone, twice. -/
theorem orphaned_edges :
    orphaned.graph.edges = [(.ofSlot 1 1, .ofSlot 1 0), (.ofSlot 1 1, .ofSlot 1 0)] ∧
      orphaned.graph.contains (.ofSlot 1 1) ∧ ¬ orphaned.graph.contains (.ofSlot 1 0) := by
  have hrun : ((Cascade.start (abandoned.graph.unroot (.ofSlot 1 0)) (.ofSlot 1 0)).runWithin
      2).map (fun result => (result.1, result.2.edges, result.2.contains (.ofSlot 1 1),
        result.2.contains (.ofSlot 1 0))) =
        some (.done #[.ofSlot 1 0],
          [(.ofSlot 1 1, .ofSlot 1 0), (.ofSlot 1 1, .ofSlot 1 0)], true, false) := by decide
  obtain ⟨⟨outcome, G⟩, hG, heq⟩ := Option.map_eq_some_iff.1 hrun
  simp only [Prod.mk.injEq] at heq
  obtain ⟨rfl, hedges, hsum, hnumber⟩ := heq
  have hentry : abandoned.graph.get? (.ofSlot 1 0) = some ⟨.intLiteral 7, .zero, true⟩ := by
    decide
  rw [orphaned, graph_andThen_release (r := ⟨.ofSlot 1 0⟩) hentry rfl rfl hG]
  exact ⟨hedges, hsum, Bool.eq_false_iff.1 hnumber⟩

/-- The tree below a call with a call in it that occurs twice. -/
theorem combined_expansion :
    combined.ordered.expansion (.ofSlot 1 3) =
      .node (.ofSlot 1 3) [.node (.ofSlot 1 1) [.node (.ofSlot 1 0) []], .node (.ofSlot 1 2) [],
        .node (.ofSlot 1 1) [.node (.ofSlot 1 0) []]] := by
  have h₀ : combined.graph.childrenOf (.ofSlot 1 0) = [] := by decide
  have h₁ : combined.graph.childrenOf (.ofSlot 1 1) = [.ofSlot 1 0] := by decide
  have h₂ : combined.graph.childrenOf (.ofSlot 1 2) = [] := by decide
  have h₃ : combined.graph.childrenOf (.ofSlot 1 3) =
      [.ofSlot 1 1, .ofSlot 1 2, .ofSlot 1 1] := by decide
  rw [Graph.Ordered.expansion_eq, h₃, List.map_cons, List.map_cons, List.map_cons, List.map_nil,
    Graph.Ordered.expansion_eq _ (.ofSlot 1 1), h₁, Graph.Ordered.expansion_eq _ (.ofSlot 1 2), h₂,
    List.map_cons, List.map_nil, Graph.Ordered.expansion_eq _ (.ofSlot 1 0), h₀]
  rfl

/-- All is live below the call. -/
theorem combined_whole : combined.graph.Whole (.ofSlot 1 3) := by
  have hlive : ∀ e ∈ combined.graph.edges, combined.graph.contains e.2 := by decide
  intro l hl
  rcases Relation.ReflTransGen.cases_tail hl with rfl | ⟨p, -, hedge⟩
  · decide
  · exact hlive _ hedge

/-- **The first listing is pre-order without repetitions**, in every history, whatever became of the
counts. It fails to know a node exactly if the node is not live. Below a live node it fails exactly
if some node that is reached has a child that is not live, and then at the first such edge of the
tree. Otherwise it is what the tree lists in pre-order, without all but the first occurrence of each
node, so that each node that is reached is listed once. That the node is over a tree rests on
generations of slots that do not wrap round (`SharedExpr.Store.Basic`). -/
theorem reachable_preorder (H : History) (h : Handle) :
    ((H.graph.reachable h).ending = .failed (.unknownNode h) ↔ ¬ H.graph.contains h) ∧
    (H.graph.contains h →
      ((∃ fault, (H.graph.reachable h).ending = .failed fault) ↔
        ∃ p c, H.graph.Reaches h p ∧ (p, c) ∈ H.graph.edges ∧ ¬ H.graph.contains c) ∧
      ∀ fault, (H.graph.reachable h).ending = .failed fault →
        ∃ p c, fault = .danglingEdge p c ∧ H.ordered.firstDangling h = some (p, c)) ∧
    ((∀ fault, (H.graph.reachable h).ending ≠ .failed fault) →
      (H.graph.reachable h).ending = .finished ∧
      (H.graph.reachable h).state.toList = (H.ordered.expansion h).preorder.eraseDups ∧
      (H.graph.reachable h).state.toList.Nodup ∧
      ∀ l, l ∈ (H.graph.reachable h).state ↔ H.graph.Reaches h l) := by
  rcases H.ordered.listings_cases h with
    ⟨hdead, hend, -⟩ | ⟨hlive, p, c, hfirst, hend, -⟩ | ⟨hlive, hnone, ⟨hend, horder⟩, -⟩
  · rw [hend]
    exact ⟨by simpa using hdead, fun hlive => absurd hlive hdead, fun hnot => absurd rfl (hnot _)⟩
  · rw [hend]
    refine ⟨by simpa using hlive, fun _ => ⟨?_, ?_⟩, fun hnot => absurd rfl (hnot _)⟩
    · have hmem := List.mem_of_find?_eq_some hfirst
      have hgone : ¬ H.graph.contains c := by simpa using List.find?_some hfirst
      obtain ⟨hreach, hedge⟩ := H.ordered.mem_edges_expansion.1 hmem
      exact iff_of_true ⟨_, rfl⟩ ⟨p, c, hreach, hedge, hgone⟩
    · intro fault hfault
      cases hfault
      exact ⟨p, c, rfl, hfirst⟩
  · rw [hend]
    have hall := H.ordered.firstDangling_eq_none_iff.1 hnone
    refine ⟨by simpa using hlive, fun _ => ⟨?_, by simp⟩, fun _ => ⟨rfl, horder, ?_, ?_⟩⟩
    · apply iff_of_false (by simp)
      rintro ⟨p, c, hreach, hedge, hgone⟩
      exact hgone (hall p c hreach hedge)
    · rw [horder]
      exact nodup_eraseDups _
    · intro l
      rw [← Array.mem_toList_iff, horder, List.mem_eraseDups, H.ordered.mem_preorder]

/-- The call is listed where it occurs first; and the sum is where the other listing fails. -/
theorem combined_reachable :
    (combined.graph.reachable (.ofSlot 1 3)).state.toList =
      [.ofSlot 1 3, .ofSlot 1 1, .ofSlot 1 0, .ofSlot 1 2] ∧
    (orphaned.graph.reachable (.ofSlot 1 1)).ending =
      .failed (.danglingEdge (.ofSlot 1 1) (.ofSlot 1 0)) := by
  constructor
  · obtain ⟨-, -, hlisted⟩ := reachable_preorder combined (.ofSlot 1 3)
    obtain ⟨-, horder, -⟩ := hlisted (by simp [combined_whole.reachable_finished])
    have htree : (combined.ordered.expansion (.ofSlot 1 3)).preorder = [.ofSlot 1 3, .ofSlot 1 1,
        .ofSlot 1 0, .ofSlot 1 2, .ofSlot 1 1, .ofSlot 1 0] := by
      simp [combined_expansion, Expansion.preorder, Expansion.traverse]
    rw [horder, htree]
    decide
  · obtain ⟨hedges, hsum, hnumber⟩ := orphaned_edges
    obtain ⟨-, hfails, -⟩ := reachable_preorder orphaned (.ofSlot 1 1)
    obtain ⟨hiff, hfirst⟩ := hfails hsum
    have hedge : (.ofSlot 1 1, .ofSlot 1 0) ∈ orphaned.graph.edges := by
      rw [hedges]
      exact List.mem_cons_self
    obtain ⟨fault, hfault⟩ := hiff.2 ⟨_, _, .refl, hedge, hnumber⟩
    obtain ⟨p, c, rfl, hpc⟩ := hfirst fault hfault
    have hmem : (p, c) ∈ orphaned.graph.edges :=
      (orphaned.ordered.mem_edges_expansion.1 (List.mem_of_find?_eq_some hpc)).2
    simp only [hedges, List.mem_cons, List.not_mem_nil, or_false, or_self, Prod.mk.injEq] at hmem
    rw [hfault, hmem.1, hmem.2]

/-- **The second listing is post-order without repetitions.** It fails exactly where the first one
does, with the same fault. Otherwise it lists the same nodes, each once, in an order in which every
child of a node comes strictly before it and the start comes last; and this is what the tree lists
in post-order, without all but the first occurrence of each node. That the start is over a tree
rests on generations of slots that do not wrap round (`SharedExpr.Store.Basic`). -/
theorem postorder_emits (H : History) (h : Handle) :
    (∀ fault, (H.graph.postorder h).ending = .failed fault ↔
      (H.graph.reachable h).ending = .failed fault) ∧
    ((∀ fault, (H.graph.postorder h).ending ≠ .failed fault) →
      (H.graph.postorder h).ending = .finished ∧
      (H.graph.postorder h).state.toList.Nodup ∧
      (H.graph.postorder h).state.toList.Perm (H.graph.reachable h).state.toList ∧
      (∀ p ∈ (H.graph.postorder h).state, ∀ c ∈ H.graph.childrenOf p,
        (H.graph.postorder h).state.toList.idxOf c < (H.graph.postorder h).state.toList.idxOf p) ∧
      (H.graph.postorder h).state.toList.getLast? = some h ∧
      (H.graph.postorder h).state.toList = (H.ordered.expansion h).postorder.eraseDups) := by
  rcases H.ordered.listings_cases h with
    ⟨-, hpre, hpost⟩ | ⟨-, p, c, -, hpre, hpost⟩ | ⟨-, -, ⟨hpre, hreached⟩, hpost, horder⟩
  · rw [hpre, hpost]
    exact ⟨fun _ => .rfl, fun hnot => absurd rfl (hnot _)⟩
  · rw [hpre, hpost]
    exact ⟨fun _ => .rfl, fun hnot => absurd rfl (hnot _)⟩
  · refine ⟨by simp [hpre, hpost], fun _ => ⟨hpost, ?_, ?_, ?_, ?_, horder⟩⟩
    · rw [horder]
      exact nodup_eraseDups _
    · rw [horder, hreached, List.perm_ext_iff_of_nodup (nodup_eraseDups _) (nodup_eraseDups _)]
      intro l
      rw [List.mem_eraseDups, List.mem_eraseDups, H.ordered.mem_postorder, H.ordered.mem_preorder]
    · intro p hp c hc
      rw [← Array.mem_toList_iff, horder, List.mem_eraseDups] at hp
      rw [horder]
      exact (H.ordered.childrenFirst_postorder h).idxOf_lt hp hc
    · rw [horder]
      exact H.ordered.getLast?_postorder h

/-- The call comes after its operands, and each of them once. -/
theorem combined_postorder :
    (combined.graph.postorder (.ofSlot 1 3)).state.toList =
      [.ofSlot 1 0, .ofSlot 1 1, .ofSlot 1 2, .ofSlot 1 3] := by
  obtain ⟨-, hlisted⟩ := postorder_emits combined (.ofSlot 1 3)
  obtain ⟨-, -, -, -, -, horder⟩ := hlisted (by simp [combined_whole.postorder_finished])
  have htree : (combined.ordered.expansion (.ofSlot 1 3)).postorder = [.ofSlot 1 0, .ofSlot 1 1,
      .ofSlot 1 2, .ofSlot 1 0, .ofSlot 1 1, .ofSlot 1 3] := by
    simp [combined_expansion, Expansion.postorder, Expansion.traverse]
  rw [horder, htree]
  decide

end History

end SharedExpr
