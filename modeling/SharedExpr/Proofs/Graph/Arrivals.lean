import Mathlib.Algebra.BigOperators.Ring.Finset
import Mathlib.Data.Set.Card
import SharedExpr.Proofs.Graph.Expansion

/-!
# How one comes to a node

In the tree below a handle one comes to a node once for each place at which it stands, from the node
above it. The places can be gone through in pre-order or depth by depth; they are the paths of edges
that lead down from the handle, where a child that occurs twice is two edges.

* `Expansion.arrivals` — the places of a tree in pre-order, `Expansion.arrivalsAt` — those at a
  depth, from left to right.
* `Graph.Ordered.arrivalsAt_succ` — **what is at a depth is the children of what is one above, in
  order**; and there is a depth at which there is nothing
  (`Graph.Ordered.exists_arrivalsAt_eq_nil`).
* `Graph.follow` — where a path leads that says at each node which child comes next.
* `Graph.Ordered.encard_pathsTo` — **a node stands in the tree as often as paths lead to it**.
-/

namespace SharedExpr

/-- A node, with the node from which one comes to it, if there is one. -/
abbrev Arrival : Type :=
  Handle × Option Handle

namespace Expansion

/-- How one comes to the nodes of a tree in pre-order, and to its top from `parent`. -/
def arrivals (parent : Option Handle) (t : Expansion) : List Arrival :=
  (t.root, parent) :: t.edges.map fun e => (e.2, some e.1)

/-- How one comes to the nodes at a depth of a tree, from left to right, and to its top from
`parent`. -/
def arrivalsAt : (depth : ℕ) → (parent : Option Handle) → Expansion → List Arrival
  | 0, parent, node h _ => [(h, parent)]
  | depth + 1, _, node h below => below.flatMap (arrivalsAt depth (some h))

end Expansion

namespace Graph

variable {g : Graph} {h l c : Handle} {parent : Option Handle} {x : Arrival} {depth : ℕ}
  {cs : List Handle}

/-- How one comes to the children of nodes to which one has come, in order. -/
def arrivalsBelow (g : Graph) (xs : List Arrival) : List Arrival :=
  xs.flatMap fun x => (g.childrenOf x.1).map fun c => (c, some x.1)

/-! ### In pre-order -/

/-- One arrives at the handle first, and then below each child, coming from the handle. -/
theorem Ordered.arrivals_expansion (hg : g.Ordered) (h : Handle) (parent : Option Handle) :
    (hg.expansion h).arrivals parent =
      (h, parent) :: (g.childrenOf h).flatMap fun c => (hg.expansion c).arrivals (some h) := by
  simp only [Expansion.arrivals, root_expansion]
  rw [edges_expansion, List.map_flatMap]
  rfl

/-- One arrives at the nodes of the tree in pre-order. -/
theorem Ordered.map_fst_arrivals (hg : g.Ordered) (h : Handle) (parent : Option Handle) :
    ((hg.expansion h).arrivals parent).map Prod.fst = (hg.expansion h).preorder := by
  induction h using hg.wellFounded.induction generalizing parent with
  | _ h ih =>
  have hbelow : ((g.childrenOf h).flatMap fun c =>
      ((hg.expansion c).arrivals (some h)).map Prod.fst) =
        (g.childrenOf h).flatMap fun c => (hg.expansion c).preorder := by
    apply List.flatMap_congr
    intro c hc
    exact ih c (mem_edges_iff.2 hc) (some h)
  rw [arrivals_expansion, List.map_cons, List.map_flatMap, hbelow, Expansion.preorder,
    traverse_expansion, List.append_nil]
  rfl

/-- There is one arrival for each place of the tree. -/
theorem Ordered.length_arrivals (hg : g.Ordered) (h : Handle) (parent : Option Handle) :
    ((hg.expansion h).arrivals parent).length = (hg.expansion h).preorder.length := by
  rw [← hg.map_fst_arrivals h parent, List.length_map]

/-! ### Depth by depth -/

/-- At the top one arrives at the handle itself. -/
theorem Ordered.arrivalsAt_zero (hg : g.Ordered) (h : Handle) (parent : Option Handle) :
    (hg.expansion h).arrivalsAt 0 parent = [(h, parent)] := by
  rw [expansion_eq]
  rfl

/-- What is one deeper in a tree stands in the trees below it. -/
theorem Ordered.arrivalsAt_expansion_succ (hg : g.Ordered) (depth : ℕ) (h : Handle)
    (parent : Option Handle) : (hg.expansion h).arrivalsAt (depth + 1) parent =
      (g.childrenOf h).flatMap fun c => (hg.expansion c).arrivalsAt depth (some h) := by
  rw [expansion_eq, Expansion.arrivalsAt, List.flatMap_map]

/-- **What is at a depth is the children of what is one above, in order.** -/
theorem Ordered.arrivalsAt_succ (hg : g.Ordered) (depth : ℕ) (h : Handle)
    (parent : Option Handle) : (hg.expansion h).arrivalsAt (depth + 1) parent =
      g.arrivalsBelow ((hg.expansion h).arrivalsAt depth parent) := by
  induction depth generalizing h parent with
  | zero =>
      rw [arrivalsAt_expansion_succ, arrivalsAt_zero]
      simp only [arrivalsAt_zero, arrivalsBelow, List.flatMap_singleton]
      exact List.map_eq_flatMap.symm
  | succ depth ih =>
      rw [arrivalsAt_expansion_succ, arrivalsAt_expansion_succ hg depth, arrivalsBelow,
        List.flatMap_assoc]
      exact List.flatMap_congr fun c _ => ih c (some h)

/-- One arrives only at what the handle reaches. -/
theorem Ordered.reaches_of_mem_arrivalsAt (hg : g.Ordered)
    (hx : x ∈ (hg.expansion h).arrivalsAt depth parent) : g.Reaches h x.1 := by
  induction depth generalizing h parent with
  | zero =>
      rw [arrivalsAt_zero, List.mem_singleton] at hx
      subst hx
      exact .refl
  | succ depth ih =>
      rw [arrivalsAt_expansion_succ, List.mem_flatMap] at hx
      obtain ⟨c, hc, hx⟩ := hx
      exact .head (mem_edges_iff.2 hc) (ih hx)

/-- There is a depth at which there is nothing. -/
theorem Ordered.exists_arrivalsAt_eq_nil (hg : g.Ordered) (h : Handle) :
    ∃ depth, ∀ parent, (hg.expansion h).arrivalsAt depth parent = [] := by
  obtain ⟨rank, hrank⟩ := hg.rank
  have hempty : ∀ depth h parent, rank h < depth →
      (hg.expansion h).arrivalsAt depth parent = [] := by
    intro depth
    induction depth with
    | zero => exact fun h parent hlt => absurd hlt (Nat.not_lt_zero _)
    | succ depth ih =>
        intro h parent hlt
        rw [arrivalsAt_expansion_succ, List.flatMap_eq_nil_iff]
        intro c hc
        have hless := hrank h c (mem_edges_iff.2 hc)
        exact ih c (some h) (by omega)
  exact ⟨rank h + 1, fun parent => hempty _ h parent (Nat.lt_succ_self _)⟩

/-! ### Paths -/

/-- Where a path leads from a handle that says at each node which child comes next, counted from
zero; nowhere, if there is no such child. -/
def follow (g : Graph) : Handle → List ℕ → Option Handle
  | h, [] => some h
  | h, i :: is => (g.childrenOf h)[i]?.bind fun c => g.follow c is

/-- The paths from `h` to `l`. -/
def pathsTo (g : Graph) (h l : Handle) : Set (List ℕ) :=
  {is | g.follow h is = some l}

/-- The paths that begin at one of the nodes and lead to `l`, each after the position of this node
in the list, where positions are counted from `k`. -/
def pathsThrough (g : Graph) (l : Handle) (k : ℕ) (cs : List Handle) : Set (List ℕ) :=
  {is | ∃ i rest c, is = (k + i) :: rest ∧ cs[i]? = some c ∧ rest ∈ g.pathsTo c l}

/-- A path leads nowhere else, or through a child. -/
theorem pathsTo_eq (g : Graph) (h l : Handle) :
    g.pathsTo h l = (if h = l then {[]} else ∅) ∪ g.pathsThrough l 0 (g.childrenOf h) := by
  ext is
  cases is with
  | nil => by_cases hl : h = l <;> simp [pathsTo, pathsThrough, follow, hl]
  | cons i is =>
      have hne : i :: is ∉ (if h = l then {[]} else ∅ : Set (List ℕ)) := by
        split <;> simp
      simp only [Set.mem_union, hne, false_or]
      simp only [pathsTo, pathsThrough, Set.mem_ofPred_eq, follow, Option.bind_eq_some_iff,
        List.cons.injEq, Nat.zero_add]
      constructor
      · rintro ⟨c, hc, hfollow⟩
        exact ⟨i, is, c, ⟨rfl, rfl⟩, hc, hfollow⟩
      · rintro ⟨i, is, c, ⟨rfl, rfl⟩, hc, hfollow⟩
        exact ⟨c, hc, hfollow⟩

/-- A path through a list of nodes begins at the first one or at one of the rest. -/
theorem pathsThrough_cons (g : Graph) (l : Handle) (k : ℕ) (c : Handle) (cs : List Handle) :
    g.pathsThrough l k (c :: cs) =
      (List.cons k '' g.pathsTo c l) ∪ g.pathsThrough l (k + 1) cs := by
  ext is
  constructor
  · rintro ⟨i, rest, d, rfl, hd, hrest⟩
    cases i with
    | zero =>
        obtain rfl := Option.some_inj.1 hd
        exact .inl ⟨rest, hrest, rfl⟩
    | succ i => exact .inr ⟨i, rest, d, by rw [Nat.add_assoc, Nat.add_comm 1], hd, hrest⟩
  · rintro (⟨rest, hrest, rfl⟩ | ⟨i, rest, d, rfl, hd, hrest⟩)
    · exact ⟨0, rest, c, rfl, rfl, hrest⟩
    · exact ⟨i + 1, rest, d, by rw [Nat.add_assoc, Nat.add_comm 1], hd, hrest⟩

/-- The paths through the nodes of a list are those from each of them. -/
theorem encard_pathsThrough (g : Graph) (l : Handle) (k : ℕ) (cs : List Handle) :
    (g.pathsThrough l k cs).encard = (cs.map fun c => (g.pathsTo c l).encard).sum := by
  induction cs generalizing k with
  | nil => simp [pathsThrough]
  | cons c cs ih =>
      have hapart : Disjoint (List.cons k '' g.pathsTo c l) (g.pathsThrough l (k + 1) cs) := by
        rw [Set.disjoint_left]
        rintro is ⟨rest, -, rfl⟩ ⟨i, rest', d, heq, -⟩
        have hhead := (List.cons.inj heq).1
        omega
      have hinj : Function.Injective (List.cons k) := List.cons_injective
      rw [pathsThrough_cons, Set.encard_union_eq hapart, hinj.encard_image, ih, List.map_cons,
        List.sum_cons]

/-- **A node stands in the tree as often as paths lead to it.** -/
theorem Ordered.encard_pathsTo (hg : g.Ordered) (h l : Handle) :
    (g.pathsTo h l).encard = (hg.expansion h).preorder.count l := by
  induction h using hg.wellFounded.induction with
  | _ h ih =>
  have hapart : Disjoint (if h = l then {[]} else ∅ : Set (List ℕ))
      (g.pathsThrough l 0 (g.childrenOf h)) := by
    rw [Set.disjoint_left]
    rintro is his ⟨i, rest, c, rfl, -⟩
    split at his <;> simp at his
  have hhere : (if h = l then {[]} else ∅ : Set (List ℕ)).encard = ([h].count l : ℕ) := by
    by_cases hl : h = l <;> simp [hl]
  have hbelow : (g.pathsThrough l 0 (g.childrenOf h)).encard =
      (((g.childrenOf h).flatMap fun c => (hg.expansion c).preorder).count l : ℕ) := by
    rw [encard_pathsThrough, List.count_flatMap, Nat.cast_list_sum, List.map_map]
    apply congrArg List.sum
    apply List.map_congr_left
    intro c hc
    exact ih c (mem_edges_iff.2 hc)
  have hsplit : (hg.expansion h).preorder =
      [h] ++ (g.childrenOf h).flatMap fun c => (hg.expansion c).preorder := by
    rw [Expansion.preorder, traverse_expansion, List.append_nil]
  rw [pathsTo_eq, Set.encard_union_eq hapart, hhere, hbelow, hsplit, List.count_append,
    Nat.cast_add]

end Graph

end SharedExpr
