import Mathlib.Data.Set.Insert
import Mathlib.Logic.Relation
import SharedExpr.Graph.Audit

/-!
# Edges as a multiset

The list of edges of a graph is in the order of slots, which no count depends on. Here it is read
as a multiset, and a multiset it is determined by the children of each node (`Graph.count_edges`).

* `Graph.childrenOf` — the children of a node, none if the node is not live.
* `Graph.occurrences` — how many edges lead from a **set** of parents to a node. It grows with the
  set (`Graph.occurrences_mono`), by the children of each parent added (`Graph.occurrences_insert`).
* `Graph.inDegree_add_occurrences` — **what a graph loses when the parents in a set go**: the edges
  that remain and the edges from the set are all the edges there were.
* `Graph.Reaches` — there is a path of edges.
-/

namespace SharedExpr.Graph

variable {g g' : Graph} {h p c : Handle} {e : Entry} {S T : Set Handle}

/-! ### The children of each node determine the edges -/

/-- The children of a node, none if the node is not live. -/
def childrenOf (g : Graph) (h : Handle) : List Handle :=
  ((g.node? h).map Node.children).getD []

/-- The children of a live node are its operands. -/
theorem childrenOf_of_get? (he : g.get? h = some e) : g.childrenOf h = e.node.children := by
  simp [childrenOf, node?, he]

/-- A handle that is not live has no children. -/
theorem childrenOf_of_get?_none (he : g.get? h = none) : g.childrenOf h = [] := by
  simp [childrenOf, node?, he]

/-- Children are read off the node. -/
theorem childrenOf_congr (hn : g'.node? h = g.node? h) : g'.childrenOf h = g.childrenOf h := by
  rw [childrenOf, childrenOf, hn]

/-- Whether a handle is live is read off the node. -/
theorem contains_congr (hn : g'.node? h = g.node? h) : g'.contains h = g.contains h := by
  simpa [node?, contains] using congrArg Option.isSome hn

/-- A handle is live exactly if it has an entry. -/
theorem contains_iff : g.contains h ↔ ∃ e, g.get? h = some e := by
  rw [contains, Option.isSome_iff_exists]

/-- A handle is live exactly if it has a node. -/
theorem contains_iff_node? : g.contains h ↔ ∃ n, g.node? h = some n := by
  rw [contains, node?, ← Option.isSome_map, Option.isSome_iff_exists]

/-- No node is listed twice. -/
theorem nodup_entries (g : Graph) : (g.entries.map Prod.fst).Nodup := by
  rw [entries, List.map_map, List.nodup_iff_pairwise_ne, List.pairwise_map]
  apply g.store.entries_pairwise.imp
  intro a b hab heq
  simp only [Function.comp_apply, handle, Handle.mk.injEq, Option.some_inj, true_and] at heq
  rw [heq] at hab
  exact Nat.lt_irrefl _ hab

/-- The edges of one entry, counted. -/
theorem count_map_pair (h p c : Handle) (cs : List Handle) :
    (cs.map fun child => (h, child)).count (p, c) = if h = p then cs.count c else 0 := by
  rw [List.count_eq_countP, List.countP_map]
  split
  · rename_i hp
    subst hp
    exact List.countP_congr fun child _ => by simp
  · rename_i hp
    exact List.countP_eq_zero.2 fun child _ => by simp [hp]

/-- Each child occurrence of a node is one edge. -/
theorem count_edges (g : Graph) (p c : Handle) :
    g.edges.count (p, c) = (g.childrenOf p).count c := by
  have other : ∀ es : List (Handle × Entry), (∀ q ∈ es, q.1 ≠ p) →
      (es.flatMap fun q => q.2.node.children.map fun child => (q.1, child)).count (p, c) = 0 := by
    intro es hes
    rw [List.count_eq_zero]
    intro hmem
    obtain ⟨q, hq, hpc⟩ := List.mem_flatMap.1 hmem
    obtain ⟨child, -, heq⟩ := List.mem_map.1 hpc
    exact hes q hq (congrArg Prod.fst heq)
  rcases he : g.get? p with _ | e
  · rw [childrenOf_of_get?_none he, List.count_nil]
    apply other g.entries
    intro q hq heq
    have := mem_entries.1 (show (q.1, q.2) ∈ g.entries from hq)
    rw [heq, he] at this
    cases this
  · -- the entry of `p` stands alone among the entries, as no node is listed twice
    obtain ⟨es₁, es₂, hes⟩ := List.append_of_mem (mem_entries.2 he)
    have hn := g.nodup_entries
    rw [hes, List.map_append, List.map_cons, List.nodup_append] at hn
    obtain ⟨-, hn₂, hn₁⟩ := hn
    have h₁ := other es₁ fun q hq heq =>
      hn₁ q.1 (List.mem_map_of_mem hq) p List.mem_cons_self heq
    have h₂ := other es₂ fun q hq heq =>
      (List.nodup_cons.1 hn₂).1 (List.mem_map.2 ⟨q, hq, heq⟩)
    rw [edges, hes, List.flatMap_append, List.flatMap_cons, List.count_append, List.count_append,
      h₁, h₂, count_map_pair, if_pos rfl, childrenOf_of_get? he, Nat.add_zero, Nat.zero_add]

/-- An edge leads from a parent to each of its children. -/
theorem mem_edges_iff : (p, c) ∈ g.edges ↔ c ∈ g.childrenOf p := by
  rw [← List.count_pos_iff, ← List.count_pos_iff, count_edges]

/-- Edges lead from live nodes only. -/
theorem contains_of_mem_edges (hpc : (p, c) ∈ g.edges) : g.contains p := by
  obtain ⟨e, he, -⟩ := mem_edges.1 hpc
  exact contains_iff.2 ⟨e, he⟩

section nodes

variable {P : Handle → Prop} [DecidablePred P]
  (hn : ∀ h, g'.node? h = if P h then none else g.node? h)
include hn

/-- The children that remain when nodes go. -/
theorem childrenOf_of_node? (p : Handle) :
    g'.childrenOf p = if P p then [] else g.childrenOf p := by
  rw [childrenOf, hn p]
  split <;> rfl

/-- The edges that remain when nodes go. -/
theorem mem_edges_of_node? : (p, c) ∈ g'.edges ↔ ¬ P p ∧ (p, c) ∈ g.edges := by
  rw [mem_edges_iff, childrenOf_of_node? hn, mem_edges_iff]
  split
  · rename_i hp
    simp [hp]
  · rename_i hp
    exact (and_iff_right hp).symm

end nodes

/-- The edges that remain when the nodes of a set lose their children. -/
theorem edges_perm_filter [DecidablePred (· ∈ S)]
    (h : ∀ p, g'.childrenOf p = if p ∈ S then [] else g.childrenOf p) :
    g'.edges.Perm (g.edges.filter fun e => e.1 ∉ S) := by
  rw [List.perm_iff_count]
  rintro ⟨p, c⟩
  rw [count_edges, h p]
  by_cases hp : p ∈ S
  · rw [if_pos hp, List.count_nil, eq_comm, List.count_eq_zero]
    simp [hp]
  · rw [if_neg hp, List.count_filter (by simpa using hp), count_edges]

/-- Graphs whose nodes have the same children, in whatever order, have the same edges. -/
theorem edges_perm (h : ∀ p, (g'.childrenOf p).Perm (g.childrenOf p)) :
    g'.edges.Perm g.edges := by
  rw [List.perm_iff_count]
  rintro ⟨p, c⟩
  rw [count_edges, count_edges, (h p).count_eq]

/-- The edges are those of one node and those that remain without it. -/
theorem edges_perm_append (he : g.get? h = some e)
    (hg : ∀ l, g'.childrenOf l = if l = h then [] else g.childrenOf l) :
    g.edges.Perm ((e.node.children.map fun c => (h, c)) ++ g'.edges) := by
  rw [List.perm_iff_count]
  rintro ⟨p, c⟩
  rw [List.count_append, count_map_pair, count_edges, count_edges, hg p]
  by_cases hp : p = h
  · subst hp
    simp [childrenOf_of_get? he]
  · simp [hp, Ne.symm hp]

/-- How many edges lead to a node is a matter of children. -/
theorem inDegree_congr (h : ∀ p, g'.childrenOf p = g.childrenOf p) (c : Handle) :
    g'.inDegree c = g.inDegree c :=
  ((edges_perm fun p => .of_eq (h p)).map Prod.snd).count_eq c

/-! ### Edges from a set of parents -/

open Classical in
/-- The number of edges that lead to a node from the parents in a set. -/
noncomputable def occurrences (g : Graph) (S : Set Handle) (h : Handle) : ℕ :=
  g.edges.countP fun e => e.1 ∈ S ∧ e.2 = h

/-- A larger set has no fewer edges to a node. -/
theorem occurrences_mono (hST : S ⊆ T) (h : Handle) : g.occurrences S h ≤ g.occurrences T h := by
  classical
  apply List.countP_mono_left
  intro e _ he
  simp only [decide_eq_true_eq] at he ⊢
  exact ⟨hST he.1, he.2⟩

/-- No edges lead from an empty set. -/
@[simp] theorem occurrences_empty (h : Handle) : g.occurrences ∅ h = 0 := by
  simp [occurrences]

/-- Some edge leads from the set to a node exactly if a member of the set has it as a child. -/
theorem occurrences_pos_iff : 0 < g.occurrences S h ↔ ∃ p ∈ S, (p, h) ∈ g.edges := by
  classical
  simp only [occurrences, List.countP_pos_iff, decide_eq_true_eq, Prod.exists]
  constructor
  · rintro ⟨p, c, he, hp, rfl⟩
    exact ⟨p, hp, he⟩
  · rintro ⟨p, hp, he⟩
    exact ⟨p, h, he, hp, rfl⟩

/-- The order of children does not matter to the number of edges. -/
theorem occurrences_congr (hg : ∀ p, (g'.childrenOf p).Perm (g.childrenOf p)) (S : Set Handle)
    (h : Handle) : g'.occurrences S h = g.occurrences S h :=
  (edges_perm hg).countP_eq _

/-- One parent more adds its child occurrences. -/
theorem occurrences_insert (hp : p ∉ S) (h : Handle) :
    g.occurrences (insert p S) h = (g.childrenOf p).count h + g.occurrences S h := by
  classical
  rw [← count_edges]
  unfold occurrences
  induction g.edges with
  | nil => rfl
  | cons e es ih =>
      obtain ⟨q, c⟩ := e
      rw [List.countP_cons, List.countP_cons, List.count_cons, ih]
      by_cases hq : q = p
      · subst hq
        by_cases hc : c = h
        · simp [hp, hc]
          omega
        · simp [hp, hc]
      · simp [hq]
        omega

/-- What goes and what remains are all the edges there were. -/
theorem inDegree_add_occurrences
    (hin : ∀ p ∈ S, g'.childrenOf p = []) (hout : ∀ p ∉ S, g'.childrenOf p = g.childrenOf p)
    (h : Handle) : g'.inDegree h + g.occurrences S h = g.inDegree h := by
  classical
  have hperm : g'.edges.Perm (g.edges.filter fun e => e.1 ∉ S) := by
    apply edges_perm_filter
    intro p
    split
    · exact hin p ‹_›
    · exact hout p ‹_›
  rw [inDegree, (hperm.map Prod.snd).count_eq h, inDegree, occurrences,
    List.count_eq_countP, List.count_eq_countP, List.countP_map, List.countP_map,
    List.countP_filter]
  induction g.edges with
  | nil => rfl
  | cons e es ih =>
      rw [List.countP_cons, List.countP_cons, List.countP_cons, ← ih]
      by_cases hp : e.1 ∈ S <;> by_cases hc : e.2 = h <;> simp [hp, hc] <;> omega

/-- Of the edges to a node no more come from a set than there are. -/
theorem occurrences_le_inDegree (S : Set Handle) (h : Handle) :
    g.occurrences S h ≤ g.inDegree h := by
  classical
  rw [occurrences, inDegree, List.count_eq_countP, List.countP_map]
  apply List.countP_mono_left
  intro e _ he
  simp only [decide_eq_true_eq] at he
  simp [he.2]

/-- If a set accounts for all edges to a node, it holds every parent of the node. -/
theorem mem_of_inDegree_le_occurrences (hle : g.inDegree h ≤ g.occurrences S h)
    (hp : (p, h) ∈ g.edges) : p ∈ S := by
  by_contra hS
  have hpos : 0 < (g.childrenOf p).count h := List.count_pos_iff.2 (mem_edges_iff.1 hp)
  have hins := occurrences_insert hS h (g := g)
  have := g.occurrences_le_inDegree (insert p S) h
  omega

/-- A set that holds every parent of a node accounts for all edges to it. -/
theorem inDegree_le_occurrences (hS : ∀ p, (p, h) ∈ g.edges → p ∈ S) :
    g.inDegree h ≤ g.occurrences S h := by
  classical
  rw [occurrences, inDegree, List.count_eq_countP, List.countP_map]
  apply List.countP_mono_left
  intro e he hh
  obtain ⟨p, c⟩ := e
  obtain rfl : c = h := by simpa using hh
  simpa using hS p he

/-- Some edge leads to a node exactly if it is a child. -/
theorem inDegree_pos_iff : 0 < g.inDegree h ↔ ∃ p, (p, h) ∈ g.edges := by
  rw [inDegree, List.count_pos_iff, List.mem_map]
  constructor
  · rintro ⟨⟨p, c⟩, he, rfl⟩
    exact ⟨p, he⟩
  · rintro ⟨p, he⟩
    exact ⟨(p, h), he, rfl⟩

/-! ### Paths -/

/-- There is a path of edges, possibly of length zero, from the first node to the second. -/
def Reaches (g : Graph) : Handle → Handle → Prop :=
  Relation.ReflTransGen fun p c => (p, c) ∈ g.edges

/-- A path that does not end where it begins has a last edge. -/
theorem Reaches.exists_parent (hp : g.Reaches p c) (hne : p ≠ c) :
    ∃ q, g.Reaches p q ∧ (q, c) ∈ g.edges := by
  rcases Relation.ReflTransGen.cases_tail hp with heq | ⟨q, hq, hqc⟩
  · exact absurd heq.symm hne
  · exact ⟨q, hq, hqc⟩

end SharedExpr.Graph
