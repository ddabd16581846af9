import Mathlib.Algebra.Order.BigOperators.Group.Finset
import SharedExpr.Proofs.History.Listing

/-!
# How many visits a listing makes

A node that is shared has many visits pending at once, one for each edge that leads to it from a
node that was expanded, and only the first of them expands it. So what was visited and what is
pending are together one visit for the start and one for each edge of the nodes that were met, and
one more for each of these nodes if the visitor comes back to it. Where nothing is left pending, the
nodes that were met are those below the start, since they hold the start and the children of each of
them.

* `Graph.below` — the live nodes that are reached from a node.
* `Listing.Expander` — visitors that expand a node when it is met and not again, with the two
  listings (`Listing.expander_preorder`, `Listing.expander_postorder`).
* `Graph.Expanding` — the invariant, kept by a visit that expands nothing (`Graph.Expanding.pass`)
  and by one that expands a node (`Graph.Expanding.enter`).
* `Graph.listings_visits` — **the listings go along each edge once**, on every graph.
-/

namespace SharedExpr

variable {ι : Type} {g : Graph} {visitor : Visitor Listing ι} {down : ι} {again : Option ι}
  {l l' : Listing} {h start : Handle} {v : Visit ι} {n : Node} {items : List (Visit ι)}

/-! ### Nodes below a node -/

open scoped Classical in
/-- The live nodes that are reached from a node. -/
noncomputable def Graph.below (g : Graph) (h : Handle) : Finset Handle :=
  (g.entries.map Prod.fst).toFinset.filter fun l => g.Reaches h l

/-- What is below a handle are the live nodes that it reaches. -/
theorem Graph.mem_below {x : Handle} : x ∈ g.below h ↔ g.contains x ∧ g.Reaches h x := by
  simp [below, mem_entries, contains_iff]

/-! ### Visitors that expand each node once -/

/-- A visitor that passes over nodes that were met. At others it goes to the children, and then
comes back if it has an input for that; when it is back it asks for nothing. -/
structure Listing.Expander (visitor : Visitor Listing ι) (down : ι) (again : Option ι) : Prop where
  /-- A node that was met is passed over. -/
  skip : ∀ l v n, v.input = down → v.node ∈ l.met → visitor l v n = (l, [])
  /-- At another node all children are to be visited, and then the node again. -/
  enter : ∀ l v n, v.input = down → v.node ∉ l.met →
    (visitor l v n).1.met = l.met.insert v.node ∧
      (visitor l v n).2 = again.toList.map .again ++ [.children down]
  /-- Back at a node, nothing is met and nothing is asked for. -/
  leave : ∀ l v n, v.input ≠ down → (visitor l v n).1.met = l.met ∧ (visitor l v n).2 = []
  /-- Coming back is told from coming down. -/
  again_ne : ∀ i ∈ again, i ≠ down

/-- The pre-order visitor goes to the children of each node once. -/
theorem Listing.expander_preorder : Listing.Expander Listing.preorderVisitor () none where
  skip := (lister_preorder default).skip
  enter := by
    intro l v n _ hmet
    rw [preorderVisitor, if_neg (mt Std.HashSet.mem_iff_contains.2 hmet)]
    exact ⟨rfl, rfl⟩
  leave := fun _ _ _ hne => absurd rfl hne
  again_ne := by simp

/-- The post-order visitor goes to the children of each node once, and then comes back. -/
theorem Listing.expander_postorder :
    Listing.Expander Listing.postorderVisitor .enter (some .leave) where
  skip := (lister_postorder default).skip
  enter := by
    intro l v n hdown hmet
    rw [postorderVisitor, hdown]
    dsimp only
    rw [if_neg (mt Std.HashSet.mem_iff_contains.2 hmet)]
    exact ⟨rfl, rfl⟩
  leave := by
    intro l v n hne
    cases hinput : v.input with
    | enter => exact absurd hinput hne
    | leave =>
        rw [postorderVisitor, hinput]
        exact ⟨rfl, rfl⟩
  again_ne := by simp

namespace Graph

/-! ### What was visited and what is pending -/

/-- What holds throughout a walk that expands each node once, of the nodes that were met. -/
structure Expanding (g : Graph) (start : Handle) (down : ι) (again : Option ι)
    (met : Finset Handle) (l : Listing) (visits : ℕ) (items : List (Visit ι)) : Prop where
  /-- The visitor remembers these nodes. -/
  met_iff : ∀ x, x ∈ l.met ↔ x ∈ met
  /-- They are live and below the start. -/
  below : met ⊆ g.below start
  /-- What is pending is below the start as well. -/
  reached : ∀ v ∈ items, g.Reaches start v.node
  /-- The start, and each child of a node that was met, was met or is yet to be come to. -/
  due : ∀ x, (x = start ∨ ∃ p ∈ met, (p, x) ∈ g.edges) →
    x ∈ met ∨ ∃ v ∈ items, v.node = x ∧ v.input = down
  /-- Each visit that was made or is pending is that of the start, or was asked for once by a node
  that was met. -/
  count : visits + items.length = 1 + ∑ x ∈ met, ((g.childrenOf x).length + again.toList.length)

variable {met : Finset Handle} {visits : ℕ}

/-- At the start nothing was met, and one visit is pending. -/
theorem expanding_first (g : Graph) (start : Handle) (down : ι) (again : Option ι) :
    g.Expanding start down again ∅ .empty 0 [⟨start, none, down⟩] where
  met_iff := by simp [Listing.empty]
  below := Finset.empty_subset _
  reached := by
    intro v hv
    rw [List.mem_singleton.1 hv]
    exact .refl
  due := by simp
  count := by simp

/-- A visit that expands nothing is one that is no longer pending. It leaves nothing out, as a node
that was come to from above was met before. -/
theorem Expanding.pass (hw : g.Expanding start down again met l visits (v :: items))
    (hv : v.input = down → v.node ∈ met) (hl : l'.met = l.met) :
    g.Expanding start down again met l' (visits + 1) items where
  met_iff := hl ▸ hw.met_iff
  below := hw.below
  reached := (List.forall_mem_cons.1 hw.reached).2
  due := by
    intro x hx
    rcases hw.due x hx with hmet | ⟨w, hmem, rfl, hdown⟩
    · exact .inl hmet
    · rcases List.mem_cons.1 hmem with rfl | hmem
      · exact .inl (hv hdown)
      · exact .inr ⟨w, hmem, rfl, hdown⟩
  count := by
    have hcount := hw.count
    rw [List.length_cons] at hcount
    omega

/-- A visit that expands a node: the node is met, and in the place of the visit there are those of
its children, and one to come back. -/
theorem Expanding.enter (hw : g.Expanding start down again met l visits (v :: items))
    (hn : g.node? v.node = some n) (hnot : v.node ∉ met) (hl : l'.met = l.met.insert v.node) :
    g.Expanding start down again (insert v.node met) l' (visits + 1)
      (n.children.map (fun child => v.toChild child down) ++
        (again.toList.map (fun i => ⟨v.node, v.parent, i⟩) ++ items)) where
  met_iff := by
    intro x
    rw [hl, Listing.mem_insert_met, hw.met_iff, Finset.mem_insert]
  below := by
    have hlive : g.contains v.node := contains_iff_node?.2 ⟨n, hn⟩
    exact Finset.insert_subset (mem_below.2 ⟨hlive, hw.reached v List.mem_cons_self⟩) hw.below
  reached := by
    have hreached := hw.reached v List.mem_cons_self
    intro w hmem
    rcases List.mem_append.1 hmem with hchild | hother
    · obtain ⟨c, hc, rfl⟩ := List.mem_map.1 hchild
      exact hreached.tail (mem_edges_of_child hn hc)
    · rcases List.mem_append.1 hother with hback | hitem
      · obtain ⟨i, -, rfl⟩ := List.mem_map.1 hback
        exact hreached
      · exact hw.reached w (List.mem_cons_of_mem v hitem)
  due := by
    intro x hx
    by_cases hxv : x = v.node
    · exact .inl (hxv ▸ Finset.mem_insert_self _ _)
    -- the children of the node are pending now, and whatever else was due was due before
    have hcases : (x = start ∨ ∃ p ∈ met, (p, x) ∈ g.edges) ∨ x ∈ n.children := by
      rcases hx with hx | ⟨p, hp, hedge⟩
      · exact .inl (.inl hx)
      · rcases Finset.mem_insert.1 hp with rfl | hp
        · rw [mem_edges_iff, childrenOf, hn] at hedge
          exact .inr hedge
        · exact .inl (.inr ⟨p, hp, hedge⟩)
    rcases hcases with hold | hchild
    · rcases hw.due x hold with hmet | ⟨w, hmem, rfl, hdown⟩
      · exact .inl (Finset.mem_insert_of_mem hmet)
      · have hitem : w ∈ items := (List.mem_cons.1 hmem).resolve_left fun heq => hxv (heq ▸ rfl)
        exact .inr ⟨w, List.mem_append_right _ (List.mem_append_right _ hitem), rfl, hdown⟩
    · exact .inr ⟨v.toChild x down, List.mem_append_left _ (List.mem_map_of_mem hchild), rfl, rfl⟩
  count := by
    have hcount := hw.count
    have hchildren : g.childrenOf v.node = n.children := by simp [childrenOf, hn]
    rw [List.length_cons] at hcount
    rw [Finset.sum_insert hnot, hchildren, List.length_append, List.length_append,
      List.length_map, List.length_map]
    omega

/-- **A visit keeps the account**, with the nodes that were met then. -/
theorem Expanding.visit (hvisitor : Listing.Expander visitor down again)
    (hw : g.Expanding start down again met l visits (v :: items)) (hn : g.node? v.node = some n) :
    ∃ met', g.Expanding start down again met' (visitor l v n).1 (visits + 1)
      (((visitor l v n).2.flatMap (v.events n)).foldl Agenda.Event.apply items) := by
  by_cases hdown : v.input = down
  · by_cases hmet : v.node ∈ met
    · rw [hvisitor.skip l v n hdown ((hw.met_iff _).2 hmet)]
      exact ⟨met, hw.pass (fun _ => hmet) rfl⟩
    · obtain ⟨hl, hrequests⟩ := hvisitor.enter l v n hdown (mt (hw.met_iff _).1 hmet)
      refine ⟨insert v.node met, ?_⟩
      rw [hrequests, List.flatMap_append, List.flatMap_singleton, List.foldl_append,
        Visit.foldl_apply_children]
      have hback : ((again.toList.map Request.again).flatMap (v.events n)).foldl
          Agenda.Event.apply items = again.toList.map (fun i => ⟨v.node, v.parent, i⟩) ++ items := by
        cases again <;> rfl
      rw [hback]
      exact hw.enter hn hmet hl
  · obtain ⟨hl, hrequests⟩ := hvisitor.leave l v n hdown
    rw [hrequests]
    exact ⟨met, hw.pass (fun h => absurd h hdown) hl⟩

/-- When nothing is pending, all nodes below the start were met. -/
theorem Expanding.eq_below (hw : g.Expanding start down again met l visits []) :
    met = g.below start := by
  have hdue : ∀ x, (x = start ∨ ∃ p ∈ met, (p, x) ∈ g.edges) → x ∈ met := by
    intro x hx
    simpa using hw.due x hx
  have hreach : ∀ x, g.Reaches start x → x ∈ met := by
    intro x hx
    induction hx with
    | refl => exact hdue _ (.inl rfl)
    | tail _ hedge ih => exact hdue _ (.inr ⟨_, ih, hedge⟩)
  exact hw.below.antisymm fun x hx => hreach x (mem_below.1 hx).2

/-! ### The two listings -/

/-- How many visits such a walk makes if it is given enough: exactly one for the start and one for
each edge of the nodes below it, and one to come back to each node if it does. If it fails, there
was one more to make. -/
theorem visits_of_expander (hvisitor : Listing.Expander visitor down again) {fuel : ℕ}
    (hfuel : (g.walk fuel h down visitor .empty).ending ≠ .outOfFuel) :
    ((g.walk fuel h down visitor .empty).ending = .finished ∧
      (g.walk fuel h down visitor .empty).visits =
        1 + ∑ x ∈ g.below h, ((g.childrenOf x).length + again.toList.length)) ∨
    ((∃ fault, (g.walk fuel h down visitor .empty).ending = .failed fault) ∧
      (g.walk fuel h down visitor .empty).visits <
        1 + ∑ x ∈ g.below h, ((g.childrenOf x).length + again.toList.length)) := by
  generalize hwalk : g.walk fuel h down visitor .empty = w at hfuel ⊢
  obtain ⟨items, ⟨met, hw⟩, hend⟩ := exists_pending_of_walkOn
    (P := fun l visits items => ∃ met, g.Expanding h down again met l visits items)
    (fun _ _ _ _ _ ⟨_, hw⟩ hn => hw.visit hvisitor hn) hwalk
    ⟨∅, expanding_first g h down again⟩
  have hcount := hw.count
  cases hend' : w.ending with
  | finished =>
      rw [hend'] at hend
      cases hend
      rw [hw.eq_below] at hcount
      exact .inl ⟨rfl, hcount⟩
  | failed fault =>
      rw [hend'] at hend
      have hsum := Finset.sum_le_sum_of_subset (f := fun x =>
        (g.childrenOf x).length + again.toList.length) hw.below
      cases hend
      rw [List.length_cons] at hcount
      exact .inr ⟨⟨_, rfl⟩, by omega⟩
  | outOfFuel => exact absurd hend' hfuel

/-- **The listings go along each edge once**, on every graph and from every handle. Let `E` be the
number of the children of the nodes below the node, where a child that occurs twice counts twice,
and `N` the number of these nodes. If the pre-order listing is carried through it makes exactly
`1 + E` visits, and the post-order listing exactly `1 + E + N`, however large the tree below the
node is. If they fail, which is the only other way for them to end, they make fewer. -/
theorem listings_visits (g : Graph) (h : Handle) :
    (((g.reachable h).ending = .finished ∧
        (g.reachable h).visits = 1 + ∑ x ∈ g.below h, (g.childrenOf x).length) ∨
      ((∃ fault, (g.reachable h).ending = .failed fault) ∧
        (g.reachable h).visits < 1 + ∑ x ∈ g.below h, (g.childrenOf x).length)) ∧
    (((g.postorder h).ending = .finished ∧
        (g.postorder h).visits =
          1 + ∑ x ∈ g.below h, (g.childrenOf x).length + (g.below h).card) ∨
      ((∃ fault, (g.postorder h).ending = .failed fault) ∧
        (g.postorder h).visits <
          1 + ∑ x ∈ g.below h, (g.childrenOf x).length + (g.below h).card)) := by
  have hpre := visits_of_expander Listing.expander_preorder (g.reachable_ending_ne_outOfFuel h)
  have hpost := visits_of_expander Listing.expander_postorder (g.postorder_ending_ne_outOfFuel h)
  have hcard : ∑ x ∈ g.below h, ((g.childrenOf x).length + 1) =
      ∑ x ∈ g.below h, (g.childrenOf x).length + (g.below h).card := by
    rw [Finset.sum_add_distrib, Finset.card_eq_sum_ones]
  simp only [Option.toList, List.length_nil, List.length_singleton, Nat.add_zero] at hpre hpost
  rw [hcard, ← Nat.add_assoc] at hpost
  exact ⟨hpre, hpost⟩

end Graph

namespace History

/-- The two listings of a call with a call in it that occurs twice. The tree has six places for four
nodes: the call that is shared is come to twice and its operand once. -/
theorem combined_visits :
    (combined.graph.reachable (.ofSlot 1 3)).visits = 5 ∧
    (combined.graph.postorder (.ofSlot 1 3)).visits = 9 ∧
    (combined.ordered.expansion (.ofSlot 1 3)).preorder.length = 6 := by
  have htree : (combined.ordered.expansion (.ofSlot 1 3)).preorder = [.ofSlot 1 3, .ofSlot 1 1,
      .ofSlot 1 0, .ofSlot 1 2, .ofSlot 1 1, .ofSlot 1 0] := by
    simp [combined_expansion, Expansion.preorder, Expansion.traverse]
  have hbelow : combined.graph.below (.ofSlot 1 3) =
      {.ofSlot 1 3, .ofSlot 1 1, .ofSlot 1 0, .ofSlot 1 2} := by
    ext x
    rw [Graph.mem_below, ← combined.ordered.mem_preorder, and_iff_right_of_imp, htree]
    · simp only [List.mem_cons, List.not_mem_nil, Finset.mem_insert, Finset.mem_singleton]
      tauto
    · exact fun hx => combined_whole x (combined.ordered.mem_preorder.1 hx)
  have hedges : ∑ x ∈ combined.graph.below (.ofSlot 1 3), (combined.graph.childrenOf x).length =
      4 := by
    rw [hbelow]
    decide
  have hnodes : (combined.graph.below (.ofSlot 1 3)).card = 4 := by
    rw [hbelow]
    decide
  obtain ⟨hpre, hpost⟩ := Graph.listings_visits combined.graph (.ofSlot 1 3)
  simp only [combined_whole.reachable_finished, combined_whole.postorder_finished, hedges, hnodes,
    reduceCtorEq, exists_false, false_and, or_false, true_and] at hpre hpost
  exact ⟨hpre, hpost, htree ▸ rfl⟩

end History

end SharedExpr
