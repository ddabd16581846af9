import SharedExpr.Proofs.Graph.Edges

/-!
# How often an audit reports what

`SharedExpr.Graph.Audit` says which faults an audit finds. Here it is said how often each is found,
which needs that no node is listed twice among the entries.

* `Fault.isMismatchAt` — the fault is a wrong count of that node.
* `Graph.filter_audit` — **a live node is reported once if its count is not the number of edges to
  it as counted afresh, and otherwise not at all**.
* `Graph.count_audit` — **an edge is reported as often as it is there, if its child is not live**.
* `Graph.of_mem_audit` — nothing else is reported.
-/

namespace SharedExpr

/-- Whether the fault is a wrong count of the node. -/
def Fault.isMismatchAt (h : Handle) : Fault → Bool
  | .countMismatch l _ _ => l = h
  | _ => false

namespace Graph

variable {g : Graph} {h p c : Handle} {e : Entry} {fault : Fault}

/-! ### Wrong counts -/

/-- Among faults of different nodes, those of one node are the ones that it has. -/
theorem filter_filterMap_of_nodup {es : List (Handle × Entry)} {f : Handle × Entry → Option Fault}
    (hf : ∀ q, ∀ x ∈ f q, x.isMismatchAt h = decide (q.1 = h)) (hn : (es.map Prod.fst).Nodup)
    (he : (h, e) ∈ es) : (es.filterMap f).filter (Fault.isMismatchAt h) = (f (h, e)).toList := by
  have other : ∀ l : List (Handle × Entry), (∀ q ∈ l, q.1 ≠ h) →
      (l.filterMap f).filter (Fault.isMismatchAt h) = [] := by
    intro l hl
    rw [List.filter_eq_nil_iff]
    intro x hx
    obtain ⟨q, hq, hqx⟩ := List.mem_filterMap.1 hx
    rw [hf q x hqx]
    simpa using hl q hq
  obtain ⟨es₁, es₂, rfl⟩ := List.append_of_mem he
  rw [List.map_append, List.map_cons, List.nodup_append] at hn
  obtain ⟨-, hn₂, hn₁⟩ := hn
  have h₁ := other es₁ fun q hq heq => hn₁ q.1 (List.mem_map_of_mem hq) h List.mem_cons_self heq
  have h₂ := other es₂ fun q hq heq =>
    (List.nodup_cons.1 hn₂).1 (List.mem_map.2 ⟨q, hq, heq⟩)
  rw [List.filterMap_append, List.filter_append, h₁, List.nil_append, List.filterMap_cons]
  cases hfe : f (h, e) with
  | none => exact h₂
  | some x => simp [h₂, hf _ x hfe]

/-- A dangling edge is no wrong count. -/
theorem isMismatchAt_of_mem_danglingEdges (hf : fault ∈ g.danglingEdges) :
    fault.isMismatchAt h = false := by
  obtain ⟨p, c, -, -, rfl⟩ := mem_danglingEdges.1 hf
  rfl

/-- A live node is reported once if its count is not what was counted afresh, and otherwise not at
all. -/
theorem filter_audit (he : g.get? h = some e) : g.audit.filter (Fault.isMismatchAt h) =
    if g.recount h = e.count.value then [] else
      [.countMismatch h e.count.value (g.recount h)] := by
  have hdangling : g.danglingEdges.filter (Fault.isMismatchAt h) = [] :=
    List.filter_eq_nil_iff.2 fun x hx => by simp [isMismatchAt_of_mem_danglingEdges hx]
  rw [audit, List.filter_append, hdangling, List.nil_append, countMismatches]
  simp only [toNat_getD_tally]
  refine (filter_filterMap_of_nodup ?_ g.nodup_entries (mem_entries.2 he)).trans ?_
  · intro q x hx
    split at hx
    · cases hx
    · obtain rfl := Option.mem_some.1 hx
      rfl
  · show (if g.recount h = e.count.value then none else
      some (Fault.countMismatch h e.count.value (g.recount h))).toList = _
    split <;> rfl

/-! ### Edges to nodes that are gone -/

/-- A wrong count is no dangling edge. -/
theorem count_countMismatches : g.countMismatches.count (.danglingEdge p c) = 0 := by
  rw [List.count_eq_zero]
  intro hmem
  obtain ⟨h, e, -, -, heq⟩ := mem_countMismatches.1 hmem
  cases heq

/-- An edge is reported as often as it is there, if its child is not live. -/
theorem count_audit (g : Graph) (p c : Handle) : g.audit.count (.danglingEdge p c) =
    if g.contains c then 0 else (g.childrenOf p).count c := by
  rw [audit, List.count_append, count_countMismatches, Nat.add_zero, ← count_edges, danglingEdges]
  induction g.edges with
  | nil => simp
  | cons q qs ih =>
      obtain ⟨p', c'⟩ := q
      rw [List.filterMap_cons, List.count_cons]
      by_cases hq : (p', c') = (p, c)
      · obtain ⟨rfl, rfl⟩ := Prod.mk.inj hq
        by_cases hc : g.contains c'
        · simpa [hc] using ih
        · simpa [hc] using ih
      · have hne : ((p', c') == (p, c)) = false := by simpa using hq
        have hfault : (Fault.danglingEdge p' c' == .danglingEdge p c) = false := by
          simpa using hq
        rw [hne]
        by_cases hc' : g.contains c'
        · simpa [hc'] using ih
        · simpa [hc', List.count_cons, hfault] using ih

/-- Nothing else is reported. -/
theorem of_mem_audit (hf : fault ∈ g.audit) : (∃ h, g.contains h ∧ fault.isMismatchAt h) ∨
    ∃ p c, (p, c) ∈ g.edges ∧ ¬ g.contains c ∧ fault = .danglingEdge p c := by
  rcases List.mem_append.1 hf with hdangling | hmismatch
  · obtain ⟨p, c, hpc, hdead, rfl⟩ := mem_danglingEdges.1 hdangling
    exact Or.inr ⟨p, c, hpc, hdead, rfl⟩
  · obtain ⟨h, e, he, -, rfl⟩ := mem_countMismatches.1 hmismatch
    exact Or.inl ⟨h, contains_iff.2 ⟨e, he⟩, by simp [Fault.isMismatchAt]⟩

end Graph

end SharedExpr
