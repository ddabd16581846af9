import Mathlib.Data.List.Count
import SharedExpr.Proofs.Graph.Edges
import SharedExpr.Proofs.Graph.Frame

/-!
# What constructions and single references come to

A construction is refused for an operand that is not live, or it adds a node and counts its operand
occurrences. `Graph.Built` has these two cases, and `Graph.build_built` says that there is no other.
`Graph.increment_cases` and `Graph.decrement_cases` do the same for references that a user adds or
takes away.

* `Graph.get?_built` — **the entries after a construction**: the new node, unreferenced and
  unrooted, and each other node with as many references more as it has occurrences among the
  operands, or as many as can be counted.
* `Graph.totals_built` — one node more, and one reference more for each occurrence.
-/

namespace SharedExpr

/-! ### Counts with references added -/

namespace Count

/-- The count with `n` references added, or the largest count if that is too much. -/
def plus (c : Count) (n : ℕ) : Count :=
  ⟨min (c.value + n) max, Nat.min_le_right _ _⟩

/-- Several references more stop at the largest count. -/
@[simp] theorem value_plus (c : Count) (n : ℕ) : (c.plus n).value = min (c.value + n) max := rfl

/-- Nothing is added. -/
@[simp] theorem plus_zero (c : Count) : c.plus 0 = c :=
  ext (Nat.min_eq_left c.value_le)

/-- Counting up once and then further is counting up once more often. -/
theorem increment_plus (c : Count) (n : ℕ) : c.increment.plus n = c.plus (n + 1) := by
  ext
  rw [value_plus, value_plus, value_increment]
  omega

end Count

namespace Graph

variable {g : Graph} {node : Node} {h l : Handle}

/-! ### Counting a list of occurrences -/

/-- The count of each live node goes up by as many references as it is named, and nothing else
changes. -/
theorem get?_foldl_raise (hs : List Handle) (g : Graph) (l : Handle) :
    (hs.foldl raise g).get? l =
      (g.get? l).map fun e => { e with count := e.count.plus (hs.count l) } := by
  induction hs generalizing g with
  | nil => simp
  | cons h hs ih =>
      rw [List.foldl_cons, ih, get?_raise, List.count_cons]
      by_cases hl : l = h
      · subst hl
        rw [if_pos rfl, Option.map_map]
        congr 1
        funext e
        simp [Count.increment_plus]
      · have hne : (h == l) = false := by simpa using Ne.symm hl
        simp [hl, hne]

/-- A reference more records no defect. -/
theorem defects_raise (g : Graph) (h : Handle) : (g.raise h).defects = g.defects := by
  unfold raise
  split
  · rw [defects_raiseTo]
  · rfl

/-- A reference more leaves the number of nodes as it is. -/
theorem size_raise (g : Graph) (h : Handle) : (g.raise h).size = g.size := by
  unfold raise
  split
  · exact g.size_modify h _
  · rfl

/-- A reference more changes no node. -/
theorem node?_raise (g : Graph) (h l : Handle) : (g.raise h).node? l = g.node? l := by
  unfold raise
  split
  · exact g.node?_raiseTo h _ l
  · rfl

/-- What a reference added leaves alone, a list of them leaves alone. -/
theorem foldl_raise_eq {β : Type} (f : Graph → β) (hf : ∀ g h, f (g.raise h) = f g)
    (hs : List Handle) (g : Graph) : f (hs.foldl raise g) = f g := by
  induction hs generalizing g with
  | nil => rfl
  | cons h hs ih => rw [List.foldl_cons, ih, hf]

/-- References to live nodes are counted in the totals. -/
theorem totals_foldl_raise (hs : List Handle) (g : Graph) (hlive : ∀ h ∈ hs, g.contains h) :
    (hs.foldl raise g).totals =
      { g.totals with increments := g.totals.increments + hs.length } := by
  induction hs generalizing g with
  | nil => rfl
  | cons h hs ih =>
      obtain ⟨e, he⟩ := contains_iff.1 (hlive h List.mem_cons_self)
      have hraise : (g.raise h).totals =
          { g.totals with increments := g.totals.increments + 1 } := by
        rw [raise, he]
        exact g.totals_raiseTo h _
      have hlive' : ∀ x ∈ hs, (g.raise h).contains x := by
        intro x hx
        obtain ⟨e', he'⟩ := contains_iff.1 (hlive x (List.mem_cons_of_mem _ hx))
        rw [contains, get?_raise]
        split <;> simp [he, he']
      rw [List.foldl_cons, ih _ hlive', hraise, List.length_cons]
      simp only [Nat.add_assoc, Nat.add_comm 1]

/-! ### A construction -/

/-- What a construction can come to. -/
inductive Built (g : Graph) (node : Node) : Outcome Handle × Graph → Prop
  /-- An operand is not live. -/
  | refused {missing} (hm : missing ∈ node.children) (hdead : ¬ g.contains missing) :
      Built g node (.refused (.unknownNode missing), g)
  /-- All operands are live, and counted. -/
  | done (hlive : ∀ c ∈ node.children, g.contains c) :
      Built g node (.done (g.add node).1, node.children.foldl raise (g.add node).2)

/-- A construction has one of the outcomes listed. -/
theorem build_built (g : Graph) (node : Node) : Built g node (g.build node) := by
  unfold build
  split
  · rename_i missing hm
    exact .refused (List.mem_of_find?_eq_some hm) (by simpa using List.find?_some hm)
  · rename_i hm
    exact .done fun c hc => by simpa using List.find?_eq_none.1 hm c hc

section done

variable (hlive : ∀ c ∈ node.children, g.contains c)
include hlive

/-- The new node is none of its operands. -/
theorem add_fst_not_mem_children : (g.add node).1 ∉ node.children := by
  intro hm
  obtain ⟨e, he⟩ := contains_iff.1 (hlive _ hm)
  rw [get?_add_fst] at he
  cases he

/-- **The entries after a construction.** -/
theorem get?_built (l : Handle) : (node.children.foldl raise (g.add node).2).get? l =
    if l = (g.add node).1 then some ⟨node, .zero, false⟩ else
      (g.get? l).map fun e => { e with count := e.count.plus (node.children.count l) } := by
  rw [get?_foldl_raise, get?_add]
  by_cases hl : l = (g.add node).1
  · rw [if_pos hl, if_pos hl, Option.map_some, hl,
      List.count_eq_zero.2 (add_fst_not_mem_children hlive), Count.plus_zero]
  · rw [if_neg hl, if_neg hl]

/-- The totals count the new node and a reference for each of its operand occurrences. -/
theorem totals_built : (node.children.foldl raise (g.add node).2).totals =
    { g.totals with
      constructed := g.totals.constructed + 1
      increments := g.totals.increments + node.children.length } := by
  rw [totals_foldl_raise]
  · rfl
  · intro x hx
    obtain ⟨e, he⟩ := contains_iff.1 (hlive x hx)
    rw [contains, get?_add]
    split <;> simp [he]

end done

/-- A node that is added makes one node more. -/
theorem size_add (g : Graph) (node : Node) : (g.add node).2.size = g.size + 1 :=
  g.store.size_insert _

/-- A construction adds its node and changes no other. -/
theorem node?_built (l : Handle) : (node.children.foldl raise (g.add node).2).node? l =
    if l = (g.add node).1 then some node else g.node? l := by
  rw [← node?_add, node?, get?_foldl_raise, Option.map_map]
  rfl

/-! ### Single references -/

/-- A reference is refused, or counted like an operand occurrence. -/
theorem increment_cases (g : Graph) (h : Handle) :
    (∃ fault, g.increment h = (.refused fault, g)) ∨
      g.contains h ∧ ∃ n, g.increment h = (.done n, g.raise h) := by
  unfold increment raise
  split
  · rename_i e he
    exact Or.inr ⟨contains_iff.2 ⟨e, he⟩, _, rfl⟩
  · exact Or.inl ⟨_, rfl⟩

/-- A reference is taken away, or no entry changes. -/
theorem decrement_cases (g : Graph) (h : Handle) :
    (∃ e count, g.get? h = some e ∧ e.count.decrement? = some count ∧
      g.decrement h = (.done count.value, g.lowerTo h count)) ∨
    (∀ n, (g.decrement h).1 ≠ .done n) ∧ (g.decrement h).2.store = g.store ∧
      (g.decrement h).2.id = g.id ∧ (g.decrement h).2.policy = g.policy := by
  unfold decrement
  split
  · exact Or.inr ⟨fun n => by simp, rfl, rfl, rfl⟩
  · rename_i e he
    split
    · rename_i count hcount
      exact Or.inl ⟨e, count, he, hcount, rfl⟩
    · refine Or.inr ⟨fun n => ?_, g.store_note h _, g.id_note h _, g.policy_note h _⟩
      unfold verdict
      split <;> simp

end Graph

end SharedExpr
