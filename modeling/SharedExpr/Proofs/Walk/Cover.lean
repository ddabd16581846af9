import SharedExpr.Proofs.Graph.Arrivals
import SharedExpr.Proofs.Lists
import SharedExpr.Proofs.Walk.Agreement
import SharedExpr.Proofs.Walk.Discipline

/-!
# Walks that leave nothing out

A visitor that schedules all children of each node, each once, and drops nothing, can put them on
the agenda in any order and at either end. What it has visited and what is still below the pending
nodes make up the tree below the start at any time, so a walk that is carried through visits the
tree, each place of it once. It is carried through exactly if all nodes of the tree are live.

* `Visit.arrival`, `Graph.arrivals` — what a walk visits, without the inputs.
* `Visitor.Covers` — each visit schedules all children, once, and drops nothing.
* `Visitor.IsBreadthFirst`, `Visitor.IsDepthFirst` — two such visitors: children are put at the end
  of the agenda, in order, or in front.
* `Visitor.Covers.exists_covered` — what was visited and what is pending **is always the tree**.
* `Visitor.Covers.perm_of_finished`, `Visitor.Covers.finished_iff`, `Visitor.Covers.failed` — how
  such a walk ends, if it may make more visits than the tree has places.

In which order the places are visited is said in `SharedExpr.Proofs.Walk.Levels`.
-/

namespace SharedExpr

open scoped List

variable {σ ι : Type}

namespace Visit

/-- How one comes to the node of a visit. -/
def arrival (v : Visit ι) : Arrival :=
  (v.node, v.parent)

/-- A visit of a child comes from the node. -/
@[simp] theorem arrival_toChild (v : Visit ι) (child : Handle) (input : ι) :
    (v.toChild child input).arrival = (child, some v.node) := rfl

/-- How one came to the nodes that were visited, by a log. -/
def arrivalsIn (log : List (Agenda.Event (Visit ι))) : List Arrival :=
  (log.filterMap Agenda.Event.taken?).map arrival

/-- A visit that was made is one arrival more. -/
theorem arrivalsIn_visit (log : List (Agenda.Event (Visit ι))) (v : Visit ι) (n : Node)
    (requests : List (Request ι)) :
    arrivalsIn (log ++ .taken v :: requests.flatMap (v.events n)) =
      arrivalsIn log ++ [v.arrival] := by
  have hnone : (requests.flatMap (v.events n)).filterMap Agenda.Event.taken? = [] :=
    List.filterMap_eq_nil_iff.2 fun _ => taken?_of_mem_events
  simp [arrivalsIn, hnone, Agenda.Event.taken?]

end Visit

/-- How one came to the nodes that a walk visits, in order. -/
def Graph.arrivals (g : Graph) (fuel : ℕ) (start : Handle) (input : ι) (visitor : Visitor σ ι)
    (state : σ) : List Arrival :=
  Visit.arrivalsIn (g.walkLog fuel start input visitor state)

/-! ### Visitors -/

namespace Visitor

variable {visitor : Visitor σ ι}

/-- The visits that are pending after a visit, given the others that were pending at it. -/
def after (visitor : Visitor σ ι) (state : σ) (v : Visit ι) (n : Node)
    (items : List (Visit ι)) : List (Visit ι) :=
  ((visitor state v n).2.flatMap (v.events n)).foldl Agenda.Event.apply items

/-- At each visit all children are scheduled, each once, and nothing is dropped. -/
def Covers (visitor : Visitor σ ι) : Prop :=
  ∀ state v n items, ((visitor.after state v n items).map Visit.arrival).Perm
    ((n.children.map fun c => (c, some v.node)) ++ items.map Visit.arrival)

/-- At each visit all children are put at the end of the agenda, in source order. -/
def IsBreadthFirst (visitor : Visitor σ ι) : Prop :=
  ∀ state v n, ∃ input : ℕ → ι,
    (visitor state v n).2 = (List.range n.children.length).map fun i => .deferred i (input i)

/-- At each visit all children are put in front of the agenda, in source order. -/
def IsDepthFirst (visitor : Visitor σ ι) : Prop :=
  ∀ state v n, ∃ input, (visitor state v n).2 = [.children input]

/-- Children that are put at the end, given by their positions. -/
theorem map_arrival_deferred (v : Visit ι) (n : Node) (input : ℕ → ι) (is : List ℕ)
    (items : List (Visit ι)) :
    ((((is.map fun i => Request.deferred i (input i)).flatMap (v.events n)).foldl
      Agenda.Event.apply items).map Visit.arrival) =
      items.map Visit.arrival ++
        (is.filterMap fun i => n.children[i]?).map fun c => (c, some v.node) := by
  induction is generalizing items with
  | nil => simp
  | cons i is ih =>
      rw [List.map_cons, List.flatMap_cons, List.foldl_append, ih, List.filterMap_cons]
      cases hc : n.children[i]? <;> simp [Visit.events, hc, Agenda.Event.apply]

/-- After a breadth-first visit the children are pending behind the others, in order. -/
theorem IsBreadthFirst.map_arrival_after (hvisitor : visitor.IsBreadthFirst) (state : σ)
    (v : Visit ι) (n : Node) (items : List (Visit ι)) :
    (visitor.after state v n items).map Visit.arrival =
      items.map Visit.arrival ++ n.children.map fun c => (c, some v.node) := by
  obtain ⟨input, hrequests⟩ := hvisitor state v n
  rw [after, hrequests, map_arrival_deferred, filterMap_getElem?_range]

/-- After a depth-first visit the children are pending in front of the others, in order. -/
theorem IsDepthFirst.map_arrival_after (hvisitor : visitor.IsDepthFirst) (state : σ)
    (v : Visit ι) (n : Node) (items : List (Visit ι)) :
    (visitor.after state v n items).map Visit.arrival =
      (n.children.map fun c => (c, some v.node)) ++ items.map Visit.arrival := by
  obtain ⟨input, hrequests⟩ := hvisitor state v n
  rw [after, hrequests, List.flatMap_singleton, Visit.foldl_apply_children, List.map_append,
    List.map_map]
  rfl

/-- A breadth-first visitor schedules all children. -/
theorem IsBreadthFirst.covers (hvisitor : visitor.IsBreadthFirst) : visitor.Covers := by
  intro state v n items
  rw [hvisitor.map_arrival_after]
  exact List.perm_append_comm

/-- A depth-first visitor schedules all children. -/
theorem IsDepthFirst.covers (hvisitor : visitor.IsDepthFirst) : visitor.Covers := by
  intro state v n items
  rw [hvisitor.map_arrival_after]

end Visitor

/-! ### What was visited and what is pending -/

namespace Graph

variable {g : Graph} {visitor : Visitor σ ι} {hg : g.Ordered} {start : Handle} {v : Visit ι}
  {n : Node} {log : List (Agenda.Event (Visit ι))} {visits : ℕ} {items : List (Visit ι)}

/-- How one comes to nodes and to all that is below them, in pre-order. -/
def Ordered.arrivalsFrom (hg : g.Ordered) (xs : List Arrival) : List Arrival :=
  xs.flatMap fun x => (hg.expansion x.1).arrivals x.2

/-- What is below arrivals in a row is what is below one part and then below the other. -/
theorem Ordered.arrivalsFrom_append (hg : g.Ordered) (xs ys : List Arrival) :
    hg.arrivalsFrom (xs ++ ys) = hg.arrivalsFrom xs ++ hg.arrivalsFrom ys :=
  List.flatMap_append

/-- Below a node is what is below its children. -/
theorem Ordered.arrivals_eq_cons (hg : g.Ordered) {h : Handle} (hn : g.node? h = some n)
    (parent : Option Handle) : (hg.expansion h).arrivals parent =
      (h, parent) :: hg.arrivalsFrom (n.children.map fun c => (c, some h)) := by
  have hchildren : g.childrenOf h = n.children := by rw [childrenOf, hn]; rfl
  rw [arrivals_expansion, hchildren, arrivalsFrom, List.flatMap_map]

/-- What holds throughout a walk that leaves nothing out. -/
structure Covered (hg : g.Ordered) (start : Handle) (log : List (Agenda.Event (Visit ι)))
    (visits : ℕ) (items : List (Visit ι)) : Prop where
  /-- What was visited, with what is pending and all below it, is the tree below the start. -/
  all : (Visit.arrivalsIn log ++ hg.arrivalsFrom (items.map Visit.arrival)).Perm
    ((hg.expansion start).arrivals none)
  /-- What was visited is live. -/
  live : ∀ x ∈ Visit.arrivalsIn log, g.contains x.1
  /-- The log tells of as many visits as were made. -/
  visits : (Visit.arrivalsIn log).length = visits

/-- At the start the whole tree is pending. -/
theorem covered_first (hg : g.Ordered) (start : Handle) (input : ι) :
    Covered hg start [.front ⟨start, none, input⟩] 0 [⟨start, none, input⟩] where
  all := by
    show List.Perm ([] ++ hg.arrivalsFrom [(start, none)]) _
    rw [List.nil_append, Ordered.arrivalsFrom, List.flatMap_singleton]
  live := by simp [Visit.arrivalsIn, Agenda.Event.taken?]
  visits := rfl

/-- A visit keeps this: the node is visited, and in its place its children are pending. -/
theorem Covered.visit (hvisitor : visitor.Covers) (h : Covered hg start log visits (v :: items))
    (hn : g.node? v.node = some n) (state : σ) :
    Covered hg start (log ++ .taken v :: (visitor state v n).2.flatMap (v.events n)) (visits + 1)
      (visitor.after state v n items) where
  all := by
    rw [Visit.arrivalsIn_visit]
    have hpending : (hg.arrivalsFrom ((visitor.after state v n items).map Visit.arrival)).Perm
        (hg.arrivalsFrom (n.children.map fun c => (c, some v.node)) ++
          hg.arrivalsFrom (items.map Visit.arrival)) := by
      rw [← hg.arrivalsFrom_append]
      exact (hvisitor state v n items).flatMap_right _
    have hv : hg.arrivalsFrom ((v :: items).map Visit.arrival) =
        v.arrival :: (hg.arrivalsFrom (n.children.map fun c => (c, some v.node)) ++
          hg.arrivalsFrom (items.map Visit.arrival)) := by
      rw [List.map_cons, ← List.singleton_append, hg.arrivalsFrom_append, Ordered.arrivalsFrom,
        List.flatMap_singleton]
      exact congrArg (· ++ _) (hg.arrivals_eq_cons hn v.parent)
    calc Visit.arrivalsIn log ++ [v.arrival] ++ _
      _ = Visit.arrivalsIn log ++ v.arrival :: _ := List.append_assoc _ _ _
      _ ~ Visit.arrivalsIn log ++ hg.arrivalsFrom ((v :: items).map Visit.arrival) := by
        rw [hv]
        exact (hpending.cons v.arrival).append_left _
      _ ~ (hg.expansion start).arrivals none := h.all
  live := by
    rw [Visit.arrivalsIn_visit]
    intro x hx
    rcases List.mem_append.1 hx with hx | hx
    · exact h.live x hx
    · rw [List.mem_singleton.1 hx]
      exact contains_iff_node?.2 ⟨n, hn⟩
  visits := by rw [Visit.arrivalsIn_visit, List.length_append, h.visits]; rfl

/-- A walk that runs out of fuel has made as many visits as it might. -/
theorem walkOn_visits_of_outOfFuel {fuel : ℕ} {agenda : Agenda (Visit ι)} {state : σ}
    (hend : (g.walkOn visitor fuel agenda visits state).ending = .outOfFuel) :
    (g.walkOn visitor fuel agenda visits state).visits = visits + fuel := by
  induction fuel generalizing agenda visits state with
  | zero =>
      rw [walkOn]
      cases agenda.pop? <;> rfl
  | succ fuel ih =>
      rw [walkOn] at hend ⊢
      cases hpop : agenda.pop? with
      | none => simp [hpop] at hend
      | some next =>
          obtain ⟨v, rest⟩ := next
          cases hn : g.node? v.node with
          | none => simp [hpop, hn] at hend
          | some n =>
              simp only [hpop, hn] at hend ⊢
              rw [ih hend, Nat.add_assoc, Nat.add_comm 1]

end Graph

/-! ### How such walks end -/

namespace Visitor.Covers

open SharedExpr.Graph

variable {g : Graph} {visitor : Visitor σ ι} {start : Handle} {fuel : ℕ}

/-- **At the end of a walk, what was visited and what is pending is the tree below the start.** -/
theorem exists_covered (hvisitor : visitor.Covers) (hg : g.Ordered) (fuel : ℕ) (start : Handle)
    (input : ι) (state : σ) :
    ∃ items, Covered hg start (g.walkLog fuel start input visitor state)
        (g.walk fuel start input visitor state).visits items ∧
      g.EndsWith items (g.walk fuel start input visitor state).ending :=
  exists_pending_of_walk (fun _ _ _ _ _ state h hn => h.visit hvisitor hn state) fuel state
    (covered_first hg start input)

variable (hvisitor : visitor.Covers) (hg : g.Ordered)
include hvisitor

/-- A walk that is carried through visits the places of the tree, each once. -/
theorem perm_of_finished {input : ι} {state : σ}
    (hend : (g.walk fuel start input visitor state).ending = .finished) :
    (g.arrivals fuel start input visitor state).Perm ((hg.expansion start).arrivals none) := by
  obtain ⟨items, hcovered, hends⟩ := hvisitor.exists_covered hg fuel start input state
  rw [hend] at hends
  cases hends
  rw [arrivals]
  simpa [Ordered.arrivalsFrom] using hcovered.all

section fuel

variable (hfuel : (hg.expansion start).preorder.length < fuel)
include hfuel

/-- More visits than the tree has places are not made. -/
theorem ending_ne_outOfFuel (input : ι) (state : σ) :
    (g.walk fuel start input visitor state).ending ≠ .outOfFuel := by
  intro hend
  obtain ⟨items, hcovered, -⟩ := hvisitor.exists_covered hg fuel start input state
  have hvisits : (g.walk fuel start input visitor state).visits = 0 + fuel :=
    walkOn_visits_of_outOfFuel hend
  have hlength := hcovered.all.length_eq
  rw [List.length_append, hcovered.visits, hvisits, hg.length_arrivals] at hlength
  omega

/-- A walk is carried through exactly if the whole tree is live. -/
theorem finished_iff (input : ι) (state : σ) :
    (g.walk fuel start input visitor state).ending = .finished ↔ g.Whole start := by
  constructor
  · intro hend l hl
    obtain ⟨items, hcovered, hends⟩ := hvisitor.exists_covered hg fuel start input state
    -- the node stands in the tree, so it was visited
    have hmem : l ∈ ((hg.expansion start).arrivals none).map Prod.fst := by
      rw [hg.map_fst_arrivals]
      exact hg.mem_preorder.2 hl
    obtain ⟨x, hx, rfl⟩ := List.mem_map.1 hmem
    exact hcovered.live x ((hvisitor.perm_of_finished hg hend).mem_iff.2 hx)
  · intro hwhole
    exact hwhole.walk_finished (hvisitor.ending_ne_outOfFuel hg hfuel input state)

/-- Otherwise it fails, at an edge to a child that is not live. -/
theorem failed (hstart : g.contains start) (hwhole : ¬ g.Whole start) (input : ι) (state : σ) :
    ∃ p c, (g.walk fuel start input visitor state).ending = .failed (.danglingEdge p c) ∧
      (p, c) ∈ g.edges ∧ ¬ g.contains c := by
  cases hend : (g.walk fuel start input visitor state).ending with
  | finished => exact absurd ((hvisitor.finished_iff hg hfuel input state).1 hend) hwhole
  | outOfFuel => exact absurd hend (hvisitor.ending_ne_outOfFuel hg hfuel input state)
  | failed fault =>
      obtain ⟨p, c, rfl, hpc⟩ := exists_danglingEdge_of_failed hstart hend
      exact ⟨p, c, rfl, hpc⟩

end fuel

end Visitor.Covers

end SharedExpr
