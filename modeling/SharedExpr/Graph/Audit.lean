import SharedExpr.Graph.Basic
import Std.Data.HashMap

/-!
# Auditing the counts

The edges of a graph are the operand occurrences of its live nodes. An audit counts them afresh and
lists what does not fit: first every edge whose child is gone, then every node whose stored count
differs from the number of edges that lead to it.

The fresh counters have 32 bits, as the stored counts have. But unlike these they do not stop at the
largest value: they wrap round, so what an audit compares with a stored count is the number of edges
modulo `2 ^ 32`. (A build that checks its arithmetic for overflow stops there instead; up to the
largest count the two do the same.)

* `tally` — the fresh count, made in one pass; `toNat_getD_tally` says that what is looked up in it
  is the number of occurrences, as far as 32 bits go.
* `Graph.edges`, `Graph.inDegree` — the edges, and how many lead to a handle.
* `Graph.recount` — how many lead to a handle as an audit counts them; up to the largest count this
  is the number itself (`Graph.recount_of_le`).
* `Graph.audit` — the faults found. `Graph.mem_danglingEdges` and `Graph.mem_countMismatches` say
  which faults they are, in terms of `Graph.get?` and `Graph.recount`.
-/

namespace SharedExpr

/-- How often each handle occurs in a list, counted in 32 bits. -/
def tally (hs : List Handle) : Std.HashMap Handle UInt32 :=
  hs.foldl (fun m h => m.insert h (m.getD h 0 + 1)) ∅

/-- A tally adds the occurrences to what the table held before. -/
theorem getD_foldl_tally (hs : List Handle) (m : Std.HashMap Handle UInt32) (h : Handle) :
    (hs.foldl (fun m h => m.insert h (m.getD h 0 + 1)) m).getD h 0 =
      m.getD h 0 + UInt32.ofNat (hs.count h) := by
  induction hs generalizing m with
  | nil => simp
  | cons x hs ih =>
    rw [List.foldl_cons, ih, List.count_cons, Std.HashMap.getD_insert]
    by_cases hx : x = h
    · subst hx
      rw [if_pos (beq_self_eq_true x), if_pos (beq_self_eq_true x), UInt32.ofNat_add,
        UInt32.add_assoc, UInt32.add_comm 1]
      rfl
    · simp [hx]

/-- What a tally holds for a handle is the number of its occurrences, modulo `2 ^ 32`. -/
theorem toNat_getD_tally (hs : List Handle) (h : Handle) :
    ((tally hs).getD h 0).toNat = hs.count h % UInt32.size := by
  rw [tally, getD_foldl_tally, Std.HashMap.getD_empty, UInt32.zero_add, UInt32.toNat_ofNat']

namespace Graph

/-- The edges of a graph, as parent and child, by ascending slot of the parent and in source order
within a parent. -/
def edges (g : Graph) : List (Handle × Handle) :=
  g.entries.flatMap fun p => p.2.node.children.map fun child => (p.1, child)

/-- The number of edges that lead to a handle. -/
def inDegree (g : Graph) (h : Handle) : Nat :=
  (g.edges.map Prod.snd).count h

/-- The number of edges that lead to a handle, as a counter of 32 bits that wraps round shows it. -/
def recount (g : Graph) (h : Handle) : Nat :=
  g.inDegree h % UInt32.size

/-- One fault for each edge whose child is not live. -/
def danglingEdges (g : Graph) : List Fault :=
  g.edges.filterMap fun p => if g.contains p.2 then none else some (.danglingEdge p.1 p.2)

/-- One fault for each live node whose stored count is not its number of incoming edges as it was
counted afresh. -/
def countMismatches (g : Graph) : List Fault :=
  let degrees := tally (g.edges.map Prod.snd)
  g.entries.filterMap fun p =>
    let actual := (degrees.getD p.1 0).toNat
    if actual = p.2.count.value then none
    else some (.countMismatch p.1 p.2.count.value actual)

/-- Everything that does not fit: the dangling edges, then the wrong counts. -/
def audit (g : Graph) : List Fault :=
  g.danglingEdges ++ g.countMismatches

/-- A number of edges that can be counted is counted right. -/
theorem recount_of_le {g : Graph} {h : Handle} (hle : g.inDegree h ≤ Count.max) :
    g.recount h = g.inDegree h :=
  Nat.mod_eq_of_lt (Nat.lt_succ_of_le hle)

/-- The edges of a graph are the operands of its live nodes. -/
theorem mem_edges {g : Graph} {parent child : Handle} :
    (parent, child) ∈ g.edges ↔ ∃ e, g.get? parent = some e ∧ child ∈ e.node.children := by
  simp only [edges, List.mem_flatMap, List.mem_map, Prod.exists, Prod.mk.injEq, mem_entries]
  constructor
  · rintro ⟨h, e, he, c, hc, rfl, rfl⟩
    exact ⟨e, he, hc⟩
  · rintro ⟨e, he, hc⟩
    exact ⟨parent, e, he, child, hc, rfl, rfl⟩

/-- A dangling edge is reported exactly if it is there and its child is not live. -/
theorem mem_danglingEdges {g : Graph} {fault : Fault} :
    fault ∈ g.danglingEdges ↔
      ∃ parent child, (parent, child) ∈ g.edges ∧ ¬ g.contains child ∧
        fault = .danglingEdge parent child := by
  simp only [danglingEdges, List.mem_filterMap, Prod.exists]
  constructor
  · rintro ⟨p, c, hpc, h⟩
    split at h
    · cases h
    · rename_i hc
      cases h
      exact ⟨p, c, hpc, hc, rfl⟩
  · rintro ⟨p, c, hpc, hc, rfl⟩
    exact ⟨p, c, hpc, by rw [if_neg hc]⟩

/-- A wrong count is reported exactly if it is stored and is not what was counted afresh. -/
theorem mem_countMismatches {g : Graph} {fault : Fault} :
    fault ∈ g.countMismatches ↔
      ∃ h e, g.get? h = some e ∧ g.recount h ≠ e.count.value ∧
        fault = .countMismatch h e.count.value (g.recount h) := by
  simp only [countMismatches, List.mem_filterMap, Prod.exists, mem_entries, toNat_getD_tally,
    recount, inDegree]
  constructor
  · rintro ⟨h, e, he, hf⟩
    split at hf
    · cases hf
    · rename_i hne
      cases hf
      exact ⟨h, e, he, hne, rfl⟩
  · rintro ⟨h, e, he, hne, rfl⟩
    exact ⟨h, e, he, by rw [if_neg hne]⟩

end Graph

end SharedExpr
