import Mathlib.Data.Finset.Lattice.Fold
import Mathlib.Data.Finset.Max
import SharedExpr.Proofs.Cascade.Moves
import SharedExpr.Proofs.Graph.Construction
import SharedExpr.Proofs.Store.Issue

/-!
# How graphs evolve

Whatever is done to a graph, its nodes come and go in three ways: a node is added over live
operands, an entry is changed but for its node, a node is removed. What these three keep, everything
keeps.

* `Graph.Change`, `Graph.Evolves` — one such change, and any number of them.
* `Graph.Issued` — the handle was given to a node, which may be gone. An evolution keeps this
  (`Graph.Evolves.issued`), and a new node is given a handle for which it does not hold
  (`Graph.not_issued_add_fst`).
* `Graph.Ordered` — **every child was issued, and ranks can be given to nodes so that they fall
  along each edge**. An evolution keeps this too (`Graph.Evolves.ordered`), so no graph ever has a
  cycle, whatever its counts say and however its slots are used again.
* `Cascade.Move.evolves` — the moves of a cascade are changes.
-/

namespace SharedExpr

namespace Graph

variable {a b c g : Graph} {h l : Handle}

/-! ### Changes -/

/-- What can happen to the nodes of a graph at once. -/
inductive Change (a b : Graph) : Prop
  /-- Nothing: what is changed is not an entry. -/
  | same (hid : b.id = a.id) (hpolicy : b.policy = a.policy) (hstore : b.store = a.store)
  /-- An entry changes, but not its node. -/
  | modify (h : Handle) (f : Entry → Entry) (hf : ∀ e, (f e).node = e.node) (hid : b.id = a.id)
      (hpolicy : b.policy = a.policy) (hstore : b.store = (a.modify h f).store)
  /-- A node is removed. -/
  | remove (h : Handle) (hid : b.id = a.id) (hpolicy : b.policy = a.policy)
      (hstore : b.store = (a.remove h).store)
  /-- A node is added over live operands. -/
  | add (node : Node) (hlive : ∀ c ∈ node.children, a.contains c) (hid : b.id = a.id)
      (hpolicy : b.policy = a.policy) (hstore : b.store = (a.add node).2.store)

/-- Any number of changes. -/
def Evolves : Graph → Graph → Prop :=
  Relation.ReflTransGen Change

/-- Entries are a matter of identity and store. -/
theorem get?_congr (hid : b.id = a.id) (hstore : b.store = a.store) (h : Handle) :
    b.get? h = a.get? h := by
  rw [get?, get?, hid, hstore]

/-- A change leaves the identity as it is. -/
theorem Change.id (hab : Change a b) : b.id = a.id := by
  cases hab <;> assumption

/-- A change leaves the policy as it is. -/
theorem Change.policy (hab : Change a b) : b.policy = a.policy := by
  cases hab <;> assumption

/-! ### Handles that were issued -/

/-- The handle was given to a node of the graph, which may be gone. -/
def Issued (g : Graph) (h : Handle) : Prop :=
  ∃ k, h = g.handle k ∧ g.store.Issued k

/-- A live handle was issued. -/
theorem issued_of_contains (hh : g.contains h) : g.Issued h := by
  obtain ⟨e, he⟩ := contains_iff.1 hh
  obtain ⟨k, rfl, hk⟩ := get?_eq_some_iff.1 he
  exact ⟨k, rfl, Store.issued_of_get? hk⟩

/-- The handle of a new node was not issued before. -/
theorem not_issued_add_fst (g : Graph) (node : Node) : ¬ g.Issued (g.add node).1 := by
  rintro ⟨k, hk, hissued⟩
  have : (g.store.insert ⟨node, .zero, false⟩).1 = k := by
    simpa [Graph.add, handle] using hk
  exact g.store.not_issued_insert_fst _ (this ▸ hissued)

/-- A handle that was issued stays issued through a change. -/
theorem Change.issued (hab : Change a b) (hh : a.Issued h) : b.Issued h := by
  obtain ⟨k, rfl, hk⟩ := hh
  have hhandle : a.handle k = b.handle k := by rw [handle, handle, hab.id]
  refine ⟨k, hhandle, ?_⟩
  cases hab with
  | same hid hpolicy hstore => rwa [hstore]
  | modify h f hf hid hpolicy hstore =>
      rw [hstore]
      unfold Graph.modify
      split
      · split
        · exact hk.modify _ f
        · exact hk
      · exact hk
  | remove h hid hpolicy hstore =>
      rw [hstore]
      unfold Graph.remove
      split
      · split
        · exact hk.erase _
        · exact hk
      · exact hk
  | add node hlive hid hpolicy hstore =>
      rw [hstore]
      exact hk.insert _

/-- A handle that was issued stays issued. -/
theorem Evolves.issued (hab : Evolves a b) (hh : a.Issued h) : b.Issued h := by
  induction hab with
  | refl => exact hh
  | tail _ hbc ih => exact hbc.issued ih

/-- The identity never changes. -/
theorem Evolves.id (hab : Evolves a b) : b.id = a.id := by
  induction hab with
  | refl => rfl
  | tail _ hbc ih => exact hbc.id.trans ih

/-- The policy never changes. -/
theorem Evolves.policy (hab : Evolves a b) : b.policy = a.policy := by
  induction hab with
  | refl => rfl
  | tail _ hbc ih => exact hbc.policy.trans ih

/-! ### Order among nodes -/

/-- Children were issued, and come before their parents in some order. -/
structure Ordered (g : Graph) : Prop where
  /-- A child of a live node was issued. -/
  issued : ∀ p c, (p, c) ∈ g.edges → g.Issued c
  /-- Ranks fall along edges. -/
  rank : ∃ rank : Handle → ℕ, ∀ p c, (p, c) ∈ g.edges → rank c < rank p

/-- **Among live nodes there is always a first one**, to which no edge leads from the others. -/
theorem Ordered.exists_first (hg : g.Ordered) {U : Set Handle} (hU : ∀ h ∈ U, g.contains h)
    (hne : U.Nonempty) : ∃ m ∈ U, ∀ p ∈ U, (p, m) ∉ g.edges := by
  classical
  obtain ⟨rank, hrank⟩ := hg.rank
  obtain ⟨h, hh⟩ := hne
  have hlisted : ∀ l ∈ U, l ∈ g.entries.map Prod.fst := by
    intro l hl
    obtain ⟨e, he⟩ := contains_iff.1 (hU l hl)
    exact List.mem_map.2 ⟨(l, e), mem_entries.2 he, rfl⟩
  obtain ⟨m, hm, hmax⟩ := ((g.entries.map Prod.fst).toFinset.filter (· ∈ U)).exists_max_image rank
    ⟨h, by simpa [hh] using hlisted h hh⟩
  have hm : m ∈ U := (Finset.mem_filter.1 hm).2
  refine ⟨m, hm, ?_⟩
  intro p hp hpm
  have hlt := hrank p m hpm
  have hle := hmax p (Finset.mem_filter.2 ⟨List.mem_toFinset.2 (hlisted p hp), hp⟩)
  omega

/-- A live node is reached from one that has no parent. -/
theorem Ordered.exists_parentless (hg : g.Ordered) (hh : g.contains h) :
    ∃ m, g.contains m ∧ g.Reaches m h ∧ ∀ p, (p, m) ∉ g.edges := by
  obtain ⟨m, ⟨hm, hmh⟩, hfirst⟩ := hg.exists_first
    (U := {m | g.contains m ∧ g.Reaches m h}) (fun m hm => hm.1) ⟨h, hh, .refl⟩
  refine ⟨m, hm, hmh, ?_⟩
  intro p hp
  exact hfirst p ⟨contains_of_mem_edges hp, .head hp hmh⟩ hp

/-- No node is a child of itself. -/
theorem Ordered.ne_of_mem_edges (hg : g.Ordered) (hl : (h, l) ∈ g.edges) : h ≠ l := by
  rintro rfl
  obtain ⟨rank, hrank⟩ := hg.rank
  exact Nat.lt_irrefl _ (hrank h h hl)

/-- Fewer edges are as ordered as they were. -/
theorem Ordered.of_edges (ha : a.Ordered) (hissued : ∀ h, a.Issued h → b.Issued h)
    (hedges : ∀ p c, (p, c) ∈ b.edges → (p, c) ∈ a.edges) : b.Ordered where
  issued p c hpc := hissued c (ha.issued p c (hedges p c hpc))
  rank := by
    obtain ⟨rank, hrank⟩ := ha.rank
    exact ⟨rank, fun p c hpc => hrank p c (hedges p c hpc)⟩

/-- A change keeps the order of issue along the edges. -/
theorem Change.ordered (hab : Change a b) (ha : a.Ordered) : b.Ordered := by
  have hissued : ∀ h, a.Issued h → b.Issued h := fun h => hab.issued
  cases hab with
  | same hid hpolicy hstore =>
      apply ha.of_edges hissued
      intro p c hpc
      rw [mem_edges_iff] at hpc ⊢
      rwa [childrenOf, node?, ← get?_congr hid hstore]
  | modify h f hf hid hpolicy hstore =>
      apply ha.of_edges hissued
      intro p c hpc
      rw [mem_edges_iff] at hpc ⊢
      have hnode : b.node? p = a.node? p := by
        rw [node?, get?_congr (a := a.modify h f) (hid.trans (a.id_modify h f).symm) hstore,
          ← node?_modify a h f p hf]
        rfl
      rwa [← childrenOf_congr hnode]
  | remove h hid hpolicy hstore =>
      apply ha.of_edges hissued
      intro p c hpc
      rw [mem_edges_iff] at hpc ⊢
      rw [childrenOf, node?, get?_congr (a := a.remove h) (hid.trans (a.id_remove h).symm) hstore,
        get?_remove] at hpc
      split at hpc
      · simp at hpc
      · exact hpc
  | add node hlive hid hpolicy hstore =>
      have hget : ∀ l, b.get? l = (a.add node).2.get? l :=
        get?_congr (hid.trans (a.id_add node).symm) hstore
      -- an edge starts at the new node, or it was there before and does not touch the new node
      have hedge : ∀ p c, (p, c) ∈ b.edges →
          p = (a.add node).1 ∧ c ∈ node.children ∨ p ≠ (a.add node).1 ∧ (p, c) ∈ a.edges := by
        intro p c hpc
        rw [mem_edges_iff, childrenOf, node?, hget, get?_add] at hpc
        split at hpc
        · rename_i hp
          exact Or.inl ⟨hp, hpc⟩
        · rename_i hp
          exact Or.inr ⟨hp, mem_edges_iff.2 hpc⟩
      have hnew := a.not_issued_add_fst node
      obtain ⟨rank, hrank⟩ := ha.rank
      refine ⟨?_, fun l => if l = (a.add node).1 then
        node.children.toFinset.sup rank + 1 else rank l, ?_⟩
      · intro p c hpc
        rcases hedge p c hpc with ⟨-, hc⟩ | ⟨-, hc⟩
        · exact hissued c (issued_of_contains (hlive c hc))
        · exact hissued c (ha.issued p c hc)
      · intro p c hpc
        rcases hedge p c hpc with ⟨rfl, hc⟩ | ⟨hp, hc⟩
        · have hne : c ≠ (a.add node).1 := fun heq =>
            hnew (heq ▸ issued_of_contains (hlive c hc))
          simp only [if_neg hne, ↓reduceIte]
          exact Nat.lt_succ_of_le (Finset.le_sup (f := rank) (List.mem_toFinset.2 hc))
        · have hne : c ≠ (a.add node).1 := fun heq => hnew (heq ▸ ha.issued p c hc)
          simp only [if_neg hne, if_neg hp]
          exact hrank p c hc

/-- The order of issue along the edges is kept throughout. -/
theorem Evolves.ordered (hab : Evolves a b) (ha : a.Ordered) : b.Ordered := by
  induction hab with
  | refl => exact ha
  | tail _ hbc ih => exact hbc.ordered ih

end Graph

/-! ### The moves of a cascade -/

/-- A move of a cascade is made up of changes. -/
theorem Cascade.Move.evolves {c d : Cascade} (hm : Move c d) : c.graph.Evolves d.graph := by
  cases hm with
  | @lower G _ child _ _ _ _ count _ _ =>
      exact .single (.modify child (fun e => { e with count := count }) (fun _ => rfl)
        (G.id_lowerTo child count) (G.policy_lowerTo child count) rfl)
  | @defect G _ child _ _ _ fault _ _ =>
      exact .single (.same (G.id_note child fault) (G.policy_note child fault)
        (G.store_note child fault))
  | @reclaim G h _ _ e _ =>
      exact .single (.remove h (G.id_reclaim h _) (G.policy_reclaim h _) rfl)
  | skip _ => exact .refl

end SharedExpr
