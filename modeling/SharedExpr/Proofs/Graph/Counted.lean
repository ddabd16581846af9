import Mathlib.Algebra.GroupWithZero.Nat
import Mathlib.Algebra.BigOperators.Group.Finset.Basic
import SharedExpr.Proofs.Graph.Construction

/-!
# The sum of the counts of a graph

The counts that a graph stores, all of them added up. The sum does not ask what the counts mean, so
it can be followed through every operation, also where counts and edges have come apart.

* `Graph.counted` — the sum. It depends on the count of each handle and on nothing else, so a change
  at one handle changes it by what that handle had and has (`Graph.counted_update`).
* `Graph.counted_raise`, `Graph.counted_lowerTo`, `Graph.counted_reclaim`, `Graph.counted_add` — the
  changes that there are.
* `Graph.counted_built` — **a construction adds as much as there are operand occurrences**, if no
  count comes to its limit.
-/

namespace SharedExpr.Graph

variable {g g' : Graph} {h : Handle} {e : Entry} {node : Node}

/-- The sum of the counts that are stored for live nodes. -/
def counted (g : Graph) : ℕ :=
  (g.entries.map fun p => p.2.count.value).sum

/-- The live handles are those that are listed with an entry. -/
theorem mem_map_fst_entries : h ∈ g.entries.map Prod.fst ↔ g.contains h := by
  simp [mem_entries, contains_iff]

/-- The sum can be taken over any set of handles that holds the live ones. -/
theorem counted_eq_sum {S : Finset Handle} (hS : ∀ h, g.contains h → h ∈ S) :
    g.counted = ∑ h ∈ S, (g.count? h).getD 0 := by
  have hkeys : g.counted = ((g.entries.map Prod.fst).map fun h => (g.count? h).getD 0).sum := by
    rw [counted, List.map_map]
    congr 1
    apply List.map_congr_left
    intro p hp
    have hp' := mem_entries.1 (show (p.1, p.2) ∈ g.entries from hp)
    simp [count?, hp']
  rw [hkeys, ← List.sum_toFinset _ g.nodup_entries]
  apply Finset.sum_subset
  · intro h hh
    exact hS h (mem_map_fst_entries.1 (List.mem_toFinset.1 hh))
  · intro h _ hh
    -- a handle without an entry has no count
    rw [List.mem_toFinset, mem_map_fst_entries, contains, Option.isSome_iff_ne_none,
      not_not] at hh
    simp [count?, hh]

/-- What changes at one handle changes the sum by as much. -/
theorem counted_update (g g' : Graph) (h : Handle) (hg : ∀ l, l ≠ h → g'.count? l = g.count? l) :
    g'.counted + (g.count? h).getD 0 = g.counted + (g'.count? h).getD 0 := by
  have hlive : ∀ {k : Graph} {l : Handle}, k.contains l →
      l ∈ (k.entries.map Prod.fst).toFinset := fun hl =>
    List.mem_toFinset.2 (mem_map_fst_entries.2 hl)
  -- both sums are taken over all handles in question
  obtain ⟨S, hh, hS, hS'⟩ : ∃ S : Finset Handle, h ∈ S ∧ (∀ l, g.contains l → l ∈ S) ∧
      ∀ l, g'.contains l → l ∈ S :=
    ⟨insert h ((g.entries.map Prod.fst).toFinset ∪ (g'.entries.map Prod.fst).toFinset),
      Finset.mem_insert_self _ _,
      fun l hl => Finset.mem_insert_of_mem (Finset.mem_union_left _ (hlive hl)),
      fun l hl => Finset.mem_insert_of_mem (Finset.mem_union_right _ (hlive hl))⟩
  have hrest : ∑ l ∈ S.erase h, (g'.count? l).getD 0 = ∑ l ∈ S.erase h, (g.count? l).getD 0 :=
    Finset.sum_congr rfl fun l hl => by rw [hg l (Finset.ne_of_mem_erase hl)]
  rw [counted_eq_sum hS, counted_eq_sum hS', ← Finset.add_sum_erase S _ hh,
    ← Finset.add_sum_erase S _ hh, hrest]
  omega

/-- The sum is determined by the counts. -/
theorem counted_congr (hg : ∀ l, g'.count? l = g.count? l) : g'.counted = g.counted := by
  have := counted_update g g' .null fun l _ => hg l
  rw [hg] at this
  omega

/-! ### One operation -/

/-- A reference that is taken away lowers the sum by one. -/
theorem counted_lowerTo {count : Count} (he : g.get? h = some e)
    (hcount : e.count.decrement? = some count) : (g.lowerTo h count).counted + 1 = g.counted := by
  have hupdate := counted_update g (g.lowerTo h count) h fun l hl => by
    rw [count?, count?, get?_lowerTo, if_neg hl]
  have hdec := Count.value_of_decrement? hcount
  simp only [count?, get?_lowerTo, he, ↓reduceIte, Option.map_some, Option.getD_some] at hupdate
  omega

/-- A defect that is noted leaves the sum as it is. -/
theorem counted_note (g : Graph) (h : Handle) (fault : Fault) :
    (g.note h fault).counted = g.counted :=
  counted_congr fun l => by rw [count?, count?, get?_note]

/-- A node takes its count with it. -/
theorem counted_reclaim (he : g.get? h = some e) (kind : Kind) :
    (g.reclaim h kind).counted + e.count.value = g.counted := by
  have hupdate := counted_update g (g.reclaim h kind) h fun l hl => by
    rw [count?, count?, get?_reclaim, if_neg hl]
  simpa [count?, get?_reclaim, he] using hupdate

/-- A new node has no references, so it leaves the sum as it is. -/
theorem counted_add (g : Graph) (node : Node) : (g.add node).2.counted = g.counted := by
  have hupdate := counted_update g (g.add node).2 (g.add node).1 fun l hl => by
    rw [count?, count?, get?_add, if_neg hl]
  simpa [count?, get?_add, get?_add_fst] using hupdate

/-- A mark leaves the sum as it is. -/
theorem counted_setRooted (g : Graph) (h : Handle) (rooted : Bool) :
    (g.setRooted h rooted).counted = g.counted :=
  counted_congr (g.count?_setRooted h rooted)

/-- A reference is counted if there is room for it. -/
theorem counted_raise (he : g.get? h = some e) (hroom : e.count.value < Count.max) :
    (g.raise h).counted = g.counted + 1 := by
  have hupdate := counted_update g (g.raise h) h fun l hl => by
    rw [count?, count?, get?_raise, if_neg hl]
  have hinc := Count.value_increment_of_lt hroom
  simp only [count?, get?_raise, he, ↓reduceIte, Option.map_some, Option.getD_some] at hupdate
  omega

/-! ### Operand occurrences -/

/-- As many references are counted as there are, if none of the counts is at its limit then. -/
theorem counted_foldl_raise (hs : List Handle) (g : Graph) (hlive : ∀ h ∈ hs, g.contains h)
    (hroom : ∀ h e, (hs.foldl raise g).get? h = some e → e.count.value < Count.max) :
    (hs.foldl raise g).counted = g.counted + hs.length := by
  induction hs generalizing g with
  | nil => rfl
  | cons h hs ih =>
      obtain ⟨e, he⟩ := contains_iff.1 (hlive h List.mem_cons_self)
      -- counts only grow, so there was room when the first reference was counted
      have hroom' : e.count.value < Count.max := by
        have := hroom h _ (by rw [get?_foldl_raise, he]; rfl)
        rw [Count.value_plus] at this
        omega
      have hlive' : ∀ l ∈ hs, (g.raise h).contains l := by
        intro l hl
        rw [contains_congr (g.node?_raise h l)]
        exact hlive l (List.mem_cons_of_mem _ hl)
      rw [List.foldl_cons] at hroom ⊢
      rw [ih _ hlive' hroom, counted_raise he hroom', List.length_cons]
      omega

/-- **A construction counts each operand occurrence**, if none of the counts is at its limit
then. -/
theorem counted_built (hlive : ∀ c ∈ node.children, g.contains c)
    (hroom : ∀ h e, (node.children.foldl raise (g.add node).2).get? h = some e →
      e.count.value < Count.max) :
    (node.children.foldl raise (g.add node).2).counted = g.counted + node.children.length := by
  have hlive' : ∀ c ∈ node.children, (g.add node).2.contains c := by
    intro c hc
    obtain ⟨e, he⟩ := contains_iff.1 (hlive c hc)
    rw [contains, get?_add]
    split <;> simp [he]
  rw [counted_foldl_raise _ _ hlive' hroom, counted_add]

end SharedExpr.Graph
