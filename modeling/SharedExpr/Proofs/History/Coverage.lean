import SharedExpr.Proofs.History.Listing
import SharedExpr.Proofs.Walk.Levels

/-!
# Two walks through one tree

Whether children are put at the end of the agenda or in front of it, a walk from a node visits the
tree below it: the one depth by depth, the other in pre-order. A node that is shared is visited
again for each path that leads to it. If the tree has a node that is gone, neither walk gets
through.

* `History.walks_cover` — **breadth-first and depth-first walks visit the same tree**, in every
  history.
-/

namespace SharedExpr

/-- A visitor that puts all children at the end of the agenda. -/
def Visitor.broad : Visitor Unit Unit := fun _ _ n =>
  ((), (List.range n.children.length).map fun i => .deferred i ())

/-- A visitor that puts all children in front of the agenda. -/
def Visitor.deep : Visitor Unit Unit := fun _ _ _ =>
  ((), [.children ()])

namespace History

/-- **Breadth-first and depth-first walks visit the same tree**, in every history, from every live
node and with any inputs and states of the visitors, if they may make more visits than the tree has
places. Below a whole node both are carried through. The one visits the tree depth by depth, where
each depth is the children of the one above it, in order. The other visits it in pre-order. They
make the same visits of the same nodes for the same parents, each as often, and so a node is visited
as often as paths of edges lead to it, where an operand that occurs twice is two edges. If some node
that is reached has a child that is not live, both walks fail at such an edge. That what they visit
is a tree rests on generations of slots that do not wrap round (`SharedExpr.Store.Basic`). -/
theorem walks_cover (H : History) {h : Handle} (hh : H.graph.contains h) {σ τ ι κ : Type}
    {broad : Visitor σ ι} {deep : Visitor τ κ} (hbroad : broad.IsBreadthFirst)
    (hdeep : deep.IsDepthFirst) (input : ι) (input' : κ) (state : σ) (state' : τ) {fuel : ℕ}
    (hfuel : (H.ordered.expansion h).preorder.length < fuel) :
    (H.graph.Whole h →
      ((H.graph.walk fuel h input broad state).ending = .finished ∧
        (H.graph.walk fuel h input' deep state').ending = .finished) ∧
      (∃ depth, H.graph.arrivals fuel h input broad state =
          (List.range depth).flatMap (fun d => (H.ordered.expansion h).arrivalsAt d none) ∧
        (H.ordered.expansion h).arrivalsAt depth none = []) ∧
      ((H.ordered.expansion h).arrivalsAt 0 none = [(h, none)] ∧
        ∀ d, (H.ordered.expansion h).arrivalsAt (d + 1) none =
          H.graph.arrivalsBelow ((H.ordered.expansion h).arrivalsAt d none)) ∧
      (H.graph.arrivals fuel h input' deep state' = (H.ordered.expansion h).arrivals none ∧
        ((H.ordered.expansion h).arrivals none).map Prod.fst =
          (H.ordered.expansion h).preorder) ∧
      (H.graph.arrivals fuel h input broad state).Perm
        (H.graph.arrivals fuel h input' deep state') ∧
      ∀ l, (((H.graph.arrivals fuel h input broad state).map Prod.fst).count l : ℕ∞) =
        (H.graph.pathsTo h l).encard) ∧
    ((∃ p c, H.graph.Reaches h p ∧ (p, c) ∈ H.graph.edges ∧ ¬ H.graph.contains c) →
      (∃ p c, (H.graph.walk fuel h input broad state).ending = .failed (.danglingEdge p c) ∧
        (p, c) ∈ H.graph.edges ∧ ¬ H.graph.contains c) ∧
      ∃ p c, (H.graph.walk fuel h input' deep state').ending = .failed (.danglingEdge p c) ∧
        (p, c) ∈ H.graph.edges ∧ ¬ H.graph.contains c) := by
  refine ⟨fun hwhole => ?_, ?_⟩
  · have hbroadend := (hbroad.covers.finished_iff H.ordered hfuel input state).2 hwhole
    have hdeepend := (hdeep.covers.finished_iff H.ordered hfuel input' state').2 hwhole
    have hbroadperm := hbroad.covers.perm_of_finished H.ordered hbroadend
    have hdeepperm := hdeep.covers.perm_of_finished H.ordered hdeepend
    refine ⟨⟨hbroadend, hdeepend⟩, ?levels, ⟨H.ordered.arrivalsAt_zero h none, fun d =>
      H.ordered.arrivalsAt_succ d h none⟩, ⟨?preorder, H.ordered.map_fst_arrivals h none⟩,
      hbroadperm.trans hdeepperm.symm, ?paths⟩
    case levels =>
      obtain ⟨depth, hdepth⟩ := H.ordered.exists_arrivalsAt_eq_nil h
      have hgoes := hbroad.goes_levels H.ordered hwhole depth
      rw [hdepth] at hgoes
      exact ⟨depth, hgoes.arrivals_eq_of_covers hbroad.covers H.ordered hwhole input state hfuel,
        hdepth none⟩
    case preorder =>
      have hgoes := hdeep.goes_tree H.ordered hwhole none []
      exact hgoes.arrivals_eq_of_covers hdeep.covers H.ordered hwhole input' state' hfuel
    case paths =>
      intro l
      rw [H.ordered.encard_pathsTo, (hbroadperm.map Prod.fst).count_eq, H.ordered.map_fst_arrivals]
  · rintro ⟨p, c, hp, hedge, hdead⟩
    have hnot : ¬ H.graph.Whole h := fun hwhole => hdead (hwhole c (hp.tail hedge))
    exact ⟨hbroad.covers.failed H.ordered hfuel hh hnot input state,
      hdeep.covers.failed H.ordered hfuel hh hnot input' state'⟩

/-- The call that occurs twice among the operands is visited twice, and so is its operand: together
after everything else by the one walk, each in its place by the other. -/
theorem combined_cover :
    (combined.graph.arrivals 7 (.ofSlot 1 3) () .broad ()).map Prod.fst =
      [.ofSlot 1 3, .ofSlot 1 1, .ofSlot 1 2, .ofSlot 1 1, .ofSlot 1 0, .ofSlot 1 0] ∧
    (combined.graph.arrivals 7 (.ofSlot 1 3) () .deep ()).map Prod.fst =
      [.ofSlot 1 3, .ofSlot 1 1, .ofSlot 1 0, .ofSlot 1 2, .ofSlot 1 1, .ofSlot 1 0] ∧
    (combined.graph.pathsTo (.ofSlot 1 3) (.ofSlot 1 0)).encard = 2 := by
  have hlive : combined.graph.contains (.ofSlot 1 3) := combined_whole _ .refl
  have htree : (combined.ordered.expansion (.ofSlot 1 3)).preorder = [.ofSlot 1 3, .ofSlot 1 1,
      .ofSlot 1 0, .ofSlot 1 2, .ofSlot 1 1, .ofSlot 1 0] := by
    simp [combined_expansion, Expansion.preorder, Expansion.traverse]
  have hfuel : (combined.ordered.expansion (.ofSlot 1 3)).preorder.length < 7 := by
    rw [htree]
    decide
  have hbroad : Visitor.broad.IsBreadthFirst := fun _ _ _ => ⟨fun _ => (), rfl⟩
  have hdeep : Visitor.deep.IsDepthFirst := fun _ _ _ => ⟨(), rfl⟩
  obtain ⟨hwalks, -⟩ := walks_cover combined hlive hbroad hdeep () () () () hfuel
  obtain ⟨-, -, -, ⟨hdeeparrivals, hpreorder⟩, -, hpaths⟩ := hwalks combined_whole
  have hbroadarrivals : (combined.graph.arrivals 7 (.ofSlot 1 3) () .broad ()).map Prod.fst =
      [.ofSlot 1 3, .ofSlot 1 1, .ofSlot 1 2, .ofSlot 1 1, .ofSlot 1 0, .ofSlot 1 0] := by decide
  refine ⟨hbroadarrivals, ?_, ?_⟩
  · rw [hdeeparrivals, hpreorder, htree]
  · rw [← hpaths, hbroadarrivals]
    decide

end History

end SharedExpr
