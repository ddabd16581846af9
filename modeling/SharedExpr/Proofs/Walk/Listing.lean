import Mathlib.Algebra.BigOperators.Group.List.Basic
import Mathlib.Algebra.GroupWithZero.Nat
import SharedExpr.Proofs.Walk.Agreement
import SharedExpr.Walk.Listing

/-!
# Listings come to an end

A listing expands a node when it is met and not again, so each edge of the graph puts at most one
visit on the agenda. The visits that are pending and the edges of the nodes that were not met are
together no more than the visits that the walk is given, and with each visit they get fewer.

* `Graph.walkOn_ending_ne_outOfFuel` — a walk does not run out of fuel if what a visitor adds to the
  agenda is paid for out of a quantity that it began with.
* `Graph.unmet` — what the live nodes that were not met weigh; `Graph.unmet_insert` — a node that is
  met takes its weight away.
* `Graph.reachable_ending_ne_outOfFuel`, `Graph.postorder_ending_ne_outOfFuel` — **the listings are
  given enough fuel**, on every graph.
* `Graph.Whole.reachable_finished`, `Graph.reachable_of_agreesBelow` and the same of
  `Graph.postorder` — below a whole node a listing is carried through, and graphs that agree below
  it give the same one.
-/

namespace SharedExpr.Graph

open Std (HashSet)

variable {g k : Graph} {h : Handle} {n : Node} {e : Entry} {met : HashSet Handle}

/-! ### Visits that are paid for -/

/-- If the visits that a visitor adds lower a quantity by as many, a walk with as much fuel as
visits are pending and this quantity allows does not run out of it. -/
theorem walkOn_ending_ne_outOfFuel {σ ι : Type} {visitor : Visitor σ ι} (budget : σ → ℕ)
    (hpaid : ∀ s v n, g.node? v.node = some n → ∀ a,
      ((visitor s v n).2.foldl (v.schedule n) a).toList.length + budget (visitor s v n).1 ≤
        a.toList.length + budget s)
    {fuel visits : ℕ} {agenda : Agenda (Visit ι)} {state : σ}
    (hfuel : agenda.toList.length + budget state ≤ fuel) :
    (g.walkOn visitor fuel agenda visits state).ending ≠ .outOfFuel := by
  induction fuel generalizing agenda visits state with
  | zero =>
      have hempty : agenda.toList = [] := List.length_eq_zero_iff.1 (by omega)
      rw [walkOn, Agenda.pop?_eq_none_iff.2 hempty]
      simp
  | succ fuel ih =>
      rw [walkOn]
      cases hpop : agenda.pop? with
      | none => simp
      | some next =>
          obtain ⟨v, rest⟩ := next
          rw [Agenda.toList_of_pop? hpop, List.length_cons] at hfuel
          cases hn : g.node? v.node with
          | none => simp [hn]
          | some n =>
              have hvisit := hpaid state v n hn rest
              simp only [hn]
              exact ih (by omega)

/-! ### Nodes that were not met -/

/-- What the live nodes weigh that were not met. -/
def unmet (g : Graph) (weight : Node → ℕ) (met : HashSet Handle) : ℕ :=
  (g.entries.map fun p => if met.contains p.1 then 0 else weight p.2.node).sum

/-- A node that is met takes its weight away. -/
theorem unmet_insert (weight : Node → ℕ) (hn : g.node? h = some n) (hmet : ¬ met.contains h) :
    g.unmet weight (met.insert h) + weight n = g.unmet weight met := by
  obtain ⟨e, he, rfl⟩ := Option.map_eq_some_iff.1 hn
  -- the entry of the node stands alone among the entries, as no node is listed twice
  obtain ⟨es₁, es₂, hes⟩ := List.append_of_mem (mem_entries.2 he)
  have hnodup := g.nodup_entries
  rw [hes, List.map_append, List.map_cons, List.nodup_append] at hnodup
  obtain ⟨-, hcons, hapart⟩ := hnodup
  have hother : ∀ es : List (Handle × Entry), (∀ p ∈ es, p.1 ≠ h) →
      (es.map fun p => if (met.insert h).contains p.1 then 0 else weight p.2.node) =
        es.map fun p => if met.contains p.1 then 0 else weight p.2.node := by
    intro es hne
    apply List.map_congr_left
    intro p hp
    have hph : ¬ h = p.1 := fun heq => hne p hp heq.symm
    simp [hph]
  have h₁ := hother es₁ fun p hp heq =>
    hapart p.1 (List.mem_map_of_mem hp) h List.mem_cons_self heq
  have h₂ := hother es₂ fun p hp heq =>
    (List.nodup_cons.1 hcons).1 (List.mem_map.2 ⟨p, hp, heq⟩)
  simp only [unmet, hes, List.map_append, List.map_cons, List.sum_append, List.sum_cons, h₁, h₂,
    hmet, HashSet.contains_insert_self, Bool.false_eq_true, ↓reduceIte]
  omega

/-- Before any node is met, all edges are those of nodes that were not met. -/
theorem unmet_children (g : Graph) :
    g.unmet (fun n => n.children.length) ∅ = g.edges.length := by
  simp [unmet, edges, List.length_flatMap]

/-- Each node may weigh one more, for coming back to it. -/
theorem unmet_children_succ (g : Graph) :
    g.unmet (fun n => n.children.length + 1) ∅ = g.edges.length + g.size := by
  have hsize : g.size = g.entries.length := by
    rw [size, Store.size_eq_length_entries, entries, List.length_map]
  rw [← unmet_children, hsize]
  simp [unmet, List.sum_map_add]

/-! ### The two listings -/

/-- The pre-order listing is given enough fuel. -/
theorem reachable_ending_ne_outOfFuel (g : Graph) (h : Handle) :
    (g.walk (1 + g.edges.length) h () Listing.preorderVisitor .empty).ending ≠ .outOfFuel := by
  apply walkOn_ending_ne_outOfFuel fun l => g.unmet (fun n => n.children.length) l.met
  · intro l v n hn a
    unfold Listing.preorderVisitor
    split
    · exact le_rfl
    · rename_i hmet
      have hweight := unmet_insert (fun n => n.children.length) hn hmet
      rw [List.foldl_cons, List.foldl_nil, Visit.toList_schedule_children, List.length_append,
        List.length_map]
      dsimp only
      omega
  · exact (congrArg (1 + ·) g.unmet_children).le

/-- The post-order listing is given enough fuel. -/
theorem postorder_ending_ne_outOfFuel (g : Graph) (h : Handle) :
    (g.walk (1 + g.edges.length + g.size) h .enter Listing.postorderVisitor .empty).ending ≠
      .outOfFuel := by
  apply walkOn_ending_ne_outOfFuel fun l => g.unmet (fun n => n.children.length + 1) l.met
  · intro l v n hn a
    unfold Listing.postorderVisitor
    split
    · split
      · exact le_rfl
      · rename_i hmet
        have hweight := unmet_insert (fun n => n.children.length + 1) hn hmet
        rw [List.foldl_cons, List.foldl_cons, List.foldl_nil, Visit.toList_schedule_children,
          List.length_append, List.length_map]
        simp only [Visit.schedule, Agenda.toList_pushFront, List.length_cons]
        omega
    · exact le_rfl
  · have hweight := g.unmet_children_succ
    simp only [Agenda.toList_pushFront, Agenda.toList_empty, Listing.empty, List.length_singleton,
      hweight]
    omega

/-! ### Listings below a node -/

/-- If all is live below a handle, the listing in pre-order is finished. -/
theorem Whole.reachable_finished (hwhole : g.Whole h) : (g.reachable h).ending = .finished :=
  hwhole.walk_finished (g.reachable_ending_ne_outOfFuel h)

/-- If all is live below a handle, the listing in post-order is finished. -/
theorem Whole.postorder_finished (hwhole : g.Whole h) : (g.postorder h).ending = .finished :=
  hwhole.walk_finished (g.postorder_ending_ne_outOfFuel h)

/-- A walk that was given enough fuel in each of two graphs that agree below its start is the same
in both, also when the one was given more. -/
theorem walk_eq_of_agreesBelow {σ ι : Type} {visitor : Visitor σ ι} {fuel fuel' : ℕ} {input : ι}
    {state : σ} (hk : g.AgreesBelow k h)
    (hg' : (g.walk fuel h input visitor state).ending ≠ .outOfFuel)
    (hk' : (k.walk fuel' h input visitor state).ending ≠ .outOfFuel) :
    k.walk fuel' h input visitor state = g.walk fuel h input visitor state := by
  rw [walk_of_agreesBelow hk] at hk' ⊢
  exact walk_eq_of_ending hk' hg'

/-- The nodes below a node are the same, in the same order, in graphs that agree there. -/
theorem reachable_of_agreesBelow (hk : g.AgreesBelow k h) : k.reachable h = g.reachable h :=
  congrArg (Walked.map Listing.order) (walk_eq_of_agreesBelow hk
    (g.reachable_ending_ne_outOfFuel h) (k.reachable_ending_ne_outOfFuel h))

/-- Graphs that agree below a handle list the same in post-order. -/
theorem postorder_of_agreesBelow (hk : g.AgreesBelow k h) : k.postorder h = g.postorder h :=
  congrArg (Walked.map Listing.order) (walk_eq_of_agreesBelow hk
    (g.postorder_ending_ne_outOfFuel h) (k.postorder_ending_ne_outOfFuel h))

end SharedExpr.Graph
