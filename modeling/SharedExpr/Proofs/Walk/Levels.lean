import SharedExpr.Proofs.Walk.Cover

/-!
# Level by level, and branch by branch

Where children are put at the end of the agenda, a walk goes through a whole level of the tree while
the next one collects behind it. Where they are put in front, it goes through everything below a
node while what was pending waits. Both are said of agendas without the inputs: what is pending is a
list of arrivals, and so is what is visited.

* `Graph.Goes` — from these arrivals pending, a walk makes those visits and has others pending then.
* `Visitor.IsBreadthFirst.goes_level` — **one level is visited, and the next one is pending**;
  `Visitor.IsBreadthFirst.goes_levels` — so are all levels, one after the other.
* `Visitor.IsDepthFirst.goes_tree` — **a tree is visited in pre-order**, whatever is pending.
* `Graph.Goes.arrivals_eq` — what a walk visits that has got to its end.
-/

namespace SharedExpr

variable {σ ι : Type}

namespace Graph

variable {g : Graph} {visitor : Visitor σ ι} {xs ys zs made made' : List Arrival} {h start : Handle}
  {parent : Option Handle} {n : Node} {fuel : ℕ}

/-- Whenever the arrivals `xs` are pending, in this order, a walk makes the visits `made` and has
the arrivals `ys` pending then. -/
def Goes (g : Graph) (visitor : Visitor σ ι) (xs made ys : List Arrival) : Prop :=
  ∀ (a : Agenda (Visit ι)) (s : σ) (log : List (Agenda.Event (Visit ι))),
    a.toList.map Visit.arrival = xs → ∃ b t log', b.toList.map Visit.arrival = ys ∧
      g.Leads visitor.logging a (s, log) made.length b (t, log') ∧
      Visit.arrivalsIn log' = Visit.arrivalsIn log ++ made

/-- Without a visit the pending arrivals are the same. -/
theorem Goes.refl : g.Goes visitor xs [] xs := by
  intro a s log ha
  exact ⟨a, s, log, ha, .refl, (List.append_nil _).symm⟩

/-- Visits can be made one part after the other. -/
theorem Goes.trans (hxy : g.Goes visitor xs made ys) (hyz : g.Goes visitor ys made' zs) :
    g.Goes visitor xs (made ++ made') zs := by
  intro a s log ha
  obtain ⟨b, t, log₁, hb, hab, hlog₁⟩ := hxy a s log ha
  obtain ⟨c, u, log₂, hc, hbc, hlog₂⟩ := hyz b t log₁ hb
  refine ⟨c, u, log₂, hc, ?_, ?_⟩
  · rw [List.length_append]
    exact hab.trans hbc
  · rw [hlog₂, hlog₁, List.append_assoc]

/-- One visit of a live node. -/
theorem goes_visit (hn : g.node? h = some n)
    (hafter : ∀ s (v : Visit ι) items, v.node = h → items.map Visit.arrival = xs →
      (visitor.after s v n items).map Visit.arrival = ys) :
    g.Goes visitor ((h, parent) :: xs) [(h, parent)] ys := by
  intro a s log ha
  obtain ⟨v, items, hlist, hv, hitems⟩ := List.map_eq_cons_iff.1 ha
  obtain ⟨hnode, -⟩ := Prod.mk.inj hv
  obtain ⟨b, hb, hround⟩ := exists_leads_of_cons visitor.logging (s, log) hlist (hnode ▸ hn)
  refine ⟨b, _, _, ?_, hround, ?_⟩
  · rw [hb]
    exact hafter s v items hnode hitems
  · rw [← hv]
    exact Visit.arrivalsIn_visit log v n _

/-- What a walk visits that has got to its end. -/
theorem Goes.arrivals_eq (hgoes : g.Goes visitor [(start, none)] made []) (input : ι) (state : σ)
    (hfuel : made.length < fuel) : g.arrivals fuel start input visitor state = made := by
  obtain ⟨b, t, log, hb, hleads, hlog⟩ := hgoes (Agenda.empty.pushFront ⟨start, none, input⟩)
    state [.front ⟨start, none, input⟩] rfl
  have hempty : b.toList = [] := List.map_eq_nil_iff.1 hb
  have hends : g.EndsWith b.toList .finished := by
    rw [hempty]
    exact .finished
  have hwalk : g.walk fuel start input visitor.logging (state, [.front ⟨start, none, input⟩]) =
      ⟨(t, log), 0 + made.length, .finished⟩ := hleads.walkOn_eq hends (by simp) hfuel
  rw [arrivals, walkLog, hwalk, hlog]
  rfl

/-- It visits as many places as the tree has, if it leaves nothing out. -/
theorem Goes.arrivals_eq_of_covers (hgoes : g.Goes visitor [(start, none)] made [])
    (hvisitor : visitor.Covers) (hg : g.Ordered) (hwhole : g.Whole start) (input : ι) (state : σ)
    (hfuel : (hg.expansion start).preorder.length < fuel) :
    g.arrivals fuel start input visitor state = made := by
  have hmore : (hg.expansion start).preorder.length < fuel + made.length := by omega
  have hend := (hvisitor.finished_iff hg hmore input state).2 hwhole
  have hlength := (hvisitor.perm_of_finished hg hend).length_eq
  rw [hgoes.arrivals_eq input state (by omega), hg.length_arrivals] at hlength
  exact hgoes.arrivals_eq input state (by omega)

/-- Below one arrival there are the children of its node, in order. -/
theorem arrivalsBelow_singleton (hn : g.node? h = some n) (parent : Option Handle) :
    g.arrivalsBelow [(h, parent)] = n.children.map fun c => (c, some h) := by
  rw [arrivalsBelow, List.flatMap_singleton, childrenOf, hn]
  rfl

/-- What is directly below arrivals in a row is what is below one part and then below the other. -/
theorem arrivalsBelow_append (g : Graph) (xs ys : List Arrival) :
    g.arrivalsBelow (xs ++ ys) = g.arrivalsBelow xs ++ g.arrivalsBelow ys :=
  List.flatMap_append

end Graph

namespace Visitor

open SharedExpr.Graph

variable {g : Graph} {visitor : Visitor σ ι} {xs ws : List Arrival} {h : Handle}
  {parent : Option Handle}

/-! ### Level by level -/

section breadthFirst

variable (hvisitor : visitor.IsBreadthFirst)
include hvisitor

/-- A breadth-first visit puts the children behind what is pending. -/
theorem IsBreadthFirst.goes_visit (hh : g.contains h) (parent : Option Handle)
    (xs : List Arrival) : g.Goes visitor ((h, parent) :: xs) [(h, parent)]
      (xs ++ g.arrivalsBelow [(h, parent)]) := by
  obtain ⟨n, hn⟩ := contains_iff_node?.1 hh
  apply Graph.goes_visit hn
  rintro s v items rfl rfl
  rw [hvisitor.map_arrival_after, arrivalsBelow_singleton hn]

/-- **A level is visited, and the next one is pending.** -/
theorem IsBreadthFirst.goes_level (hlive : ∀ x ∈ ws, g.contains x.1) (xs : List Arrival) :
    g.Goes visitor (ws ++ xs) ws (xs ++ g.arrivalsBelow ws) := by
  induction ws generalizing xs with
  | nil =>
      rw [arrivalsBelow, List.flatMap_nil, List.append_nil]
      exact .refl
  | cons w ws ih =>
      obtain ⟨hw, hlive⟩ := List.forall_mem_cons.1 hlive
      have hfirst := hvisitor.goes_visit hw w.2 (ws ++ xs)
      have hothers := ih hlive (xs ++ g.arrivalsBelow [w])
      rw [List.append_assoc] at hfirst
      rw [List.append_assoc, ← arrivalsBelow_append] at hothers
      exact hfirst.trans hothers

/-- So all levels are visited, one after the other. -/
theorem IsBreadthFirst.goes_levels (hg : g.Ordered) (hwhole : g.Whole h) (depth : ℕ) :
    g.Goes visitor [(h, none)]
      ((List.range depth).flatMap fun d => (hg.expansion h).arrivalsAt d none)
      ((hg.expansion h).arrivalsAt depth none) := by
  induction depth with
  | zero =>
      rw [hg.arrivalsAt_zero]
      exact .refl
  | succ depth ih =>
      have hlive : ∀ x ∈ (hg.expansion h).arrivalsAt depth none, g.contains x.1 :=
        fun x hx => hwhole x.1 (hg.reaches_of_mem_arrivalsAt hx)
      have hlevel := hvisitor.goes_level hlive []
      rw [List.append_nil, List.nil_append, ← hg.arrivalsAt_succ] at hlevel
      rw [List.range_succ, List.flatMap_append, List.flatMap_singleton]
      exact ih.trans hlevel

end breadthFirst

/-! ### Branch by branch -/

section depthFirst

variable (hvisitor : visitor.IsDepthFirst)
include hvisitor

/-- A depth-first visit puts the children in front of what is pending. -/
theorem IsDepthFirst.goes_visit (hh : g.contains h) (parent : Option Handle) (xs : List Arrival) :
    g.Goes visitor ((h, parent) :: xs) [(h, parent)] (g.arrivalsBelow [(h, parent)] ++ xs) := by
  obtain ⟨n, hn⟩ := contains_iff_node?.1 hh
  apply Graph.goes_visit hn
  rintro s v items rfl rfl
  rw [hvisitor.map_arrival_after, arrivalsBelow_singleton hn]

/-- **A tree is visited in pre-order**, whatever else is pending. -/
theorem IsDepthFirst.goes_tree (hg : g.Ordered) (hwhole : g.Whole h) (parent : Option Handle)
    (xs : List Arrival) :
    g.Goes visitor ((h, parent) :: xs) ((hg.expansion h).arrivals parent) xs := by
  induction h using hg.wellFounded.induction generalizing parent xs with
  | _ h ih =>
  -- the trees below the node, one after the other
  have hbelow : ∀ cs ⊆ g.childrenOf h, g.Goes visitor ((cs.map fun c => (c, some h)) ++ xs)
      (cs.flatMap fun c => (hg.expansion c).arrivals (some h)) xs := by
    intro cs hcs
    induction cs with
    | nil => exact .refl
    | cons c cs ihcs =>
        obtain ⟨hc, hcs⟩ := List.cons_subset.1 hcs
        have hedge := mem_edges_iff.2 hc
        have hwholec : g.Whole c := fun l hl => hwhole l (.head hedge hl)
        exact (ih c hedge hwholec (some h) _).trans (ihcs hcs)
  have hvisit := hvisitor.goes_visit (hwhole h .refl) parent xs
  rw [arrivalsBelow, List.flatMap_singleton] at hvisit
  rw [hg.arrivals_expansion]
  exact hvisit.trans (hbelow _ (List.Subset.refl _))

end depthFirst

end Visitor

end SharedExpr
