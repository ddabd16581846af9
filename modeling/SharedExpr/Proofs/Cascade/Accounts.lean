import Mathlib.Order.Bounds.Defs
import Mathlib.Tactic.Tauto
import SharedExpr.Proofs.Cascade.Moves
import SharedExpr.Proofs.Graph.Edges
import SharedExpr.Proofs.Graph.Frame

/-!
# What a cascade accounts for

A cascade acts on the counts as it finds them, right or wrong. Its state can nevertheless be read
off the graph `g` in which it began, the nodes reclaimed so far and the edges still to be dropped:
every other node has lost as many references as edges to it were dropped, but never more than it
had.

* `Graph.ExhaustedBy` — so many references are all that an unrooted node has.
* `Graph.ReleaseClosed` — a set of nodes holds the released one and each node that it exhausts.
* `Graph.Justified` — a list of nodes each of which is the released one or is exhausted by those
  before it. Such a list lies in every closed set (`Graph.Justified.mem_of_closed`).
* `Cascade.Accounts` — the invariant. Every move keeps it (`Cascade.Accounts.move`), also when the
  edges and the pending nodes are put in another order first (`Cascade.Accounts.reordered`).
* `Cascade.Accounts.isLeast` — **at the end the nodes reclaimed are the least closed set**.

Scope: nothing is assumed of the counts of `g`, and nothing of its edges.
-/

namespace SharedExpr

/-! ### Counts with references taken away -/

namespace Count

/-- The count with `n` references taken away, or all if there are fewer. -/
def minus (c : Count) (n : ℕ) : Count :=
  ⟨c.value - n, (Nat.sub_le _ _).trans c.value_le⟩

/-- Taking references away stops at zero. -/
@[simp] theorem value_minus (c : Count) (n : ℕ) : (c.minus n).value = c.value - n := rfl

/-- Nothing is taken away. -/
@[simp] theorem minus_zero (c : Count) : c.minus 0 = c := rfl

end Count

/-! ### Exhausted nodes and closed sets -/

namespace Graph

variable {g : Graph} {r h : Handle} {S T : Set Handle} {m n : ℕ} {l : List Handle}

/-- The node is live, no root holds it, it has references, and `n` are all that it has. -/
def ExhaustedBy (g : Graph) (n : ℕ) (h : Handle) : Prop :=
  ∃ e, g.get? h = some e ∧ e.rooted = false ∧ 1 ≤ e.count.value ∧ e.count.value ≤ n

/-- A node that has no more references than `m` has no more than any larger number. -/
theorem ExhaustedBy.mono (hmn : m ≤ n) (hh : g.ExhaustedBy m h) : g.ExhaustedBy n h := by
  obtain ⟨e, he, hroot, hpos, hle⟩ := hh
  exact ⟨e, he, hroot, hpos, hle.trans hmn⟩

/-- The set holds `r` and every other node whose references all come from the set. -/
def ReleaseClosed (g : Graph) (r : Handle) (S : Set Handle) : Prop :=
  r ∈ S ∧ ∀ h, h ≠ r → g.ExhaustedBy (g.occurrences S h) h → h ∈ S

/-- Each node of the list is `r` or exhausted by edges from the nodes before it. -/
inductive Justified (g : Graph) (r : Handle) : List Handle → Prop
  | nil : Justified g r []
  | snoc {l : List Handle} {h : Handle} (hl : Justified g r l)
      (hh : h = r ∨ g.ExhaustedBy (g.occurrences {p | p ∈ l} h) h) : Justified g r (l ++ [h])

/-- A closed set holds every node that is justified. -/
theorem Justified.mem_of_closed (hl : g.Justified r l) (hS : g.ReleaseClosed r S) :
    ∀ h ∈ l, h ∈ S := by
  induction hl with
  | nil => simp
  | @snoc l h _ hh ih =>
      intro x hx
      rcases List.mem_append.1 hx with hx | hx
      · exact ih x hx
      · rw [List.mem_singleton.1 hx]
        by_cases hr : h = r
        · exact hr ▸ hS.1
        · apply hS.2 h hr
          apply (hh.resolve_left hr).mono
          exact occurrences_mono (fun p hp => ih p hp) h

/-- No justified node but the released one is rooted. -/
theorem Justified.rooted_eq_false {e : Entry} (hl : g.Justified r l) (hh : h ∈ l) (hr : h ≠ r)
    (he : g.get? h = some e) : e.rooted = false := by
  induction hl with
  | nil => simp at hh
  | snoc _ hx ih =>
      rcases List.mem_append.1 hh with hh | hh
      · exact ih hh
      · obtain rfl := List.mem_singleton.1 hh
        obtain ⟨e', he', hroot, -⟩ := hx.resolve_left hr
        obtain rfl : e' = e := Option.some_inj.1 (he'.symm.trans he)
        exact hroot

end Graph

namespace Cascade

variable {g : Graph} {r h : Handle} {c d : Cascade}

/-! ### Orders of work -/

/-- The same state with its edges and its pending nodes in another order. -/
structure Reordered (c d : Cascade) : Prop where
  /-- The graph is the same. -/
  graph : d.graph = c.graph
  /-- The same edges are still to be dropped. -/
  edges : d.edges.Perm c.edges
  /-- The same nodes wait. -/
  pending : d.pending.Perm c.pending
  /-- The same nodes were reclaimed. -/
  report : d.report = c.report

/-- Steps before each of which the edges and the pending nodes may be put in any order. -/
def StepsInAnyOrder : Cascade → Cascade → Prop :=
  Relation.ReflTransGen fun c d => ∃ c', Reordered c c' ∧ c'.step = .running d

/-! ### The invariant -/

/-- How many edges to a node were dropped: the edges of the nodes reclaimed, but for those still to
be dropped. -/
noncomputable def dropped (g : Graph) (c : Cascade) (h : Handle) : ℕ :=
  g.occurrences {p | p ∈ c.report} h - (c.edges.map Prod.snd).count h

/-- The state of a cascade that began in `g` with the node `r`. -/
structure Accounts (g : Graph) (r : Handle) (c : Cascade) : Prop where
  /-- The cascade works on the same graph. -/
  id : c.graph.id = g.id
  /-- The policy is not changed. -/
  policy : c.graph.policy = g.policy
  /-- No node is reclaimed or waits twice, and no reclaimed node waits. -/
  nodup : (c.report.toList ++ c.pending).Nodup
  /-- Nodes that are reclaimed or wait were live. -/
  live : ∀ h, h ∈ c.report ∨ h ∈ c.pending → g.contains h
  /-- The edges still to be dropped are edges of reclaimed nodes. -/
  edges_le : ∀ h, (c.edges.map Prod.snd).count h ≤ g.occurrences {p | p ∈ c.report} h
  /-- Reclaimed nodes are gone, the others lost their dropped references. -/
  get? : ∀ h, c.graph.get? h = if h ∈ c.report then none else
    (g.get? h).map fun e => { e with count := e.count.minus (c.dropped g h) }
  /-- The released node is reclaimed or waits. -/
  start : r ∈ c.report ∨ r ∈ c.pending
  /-- A node is reclaimed or waits only if the dropped edges exhaust it. -/
  exhausted : ∀ h, h ∈ c.report ∨ h ∈ c.pending → h = r ∨ g.ExhaustedBy (c.dropped g h) h
  /-- Every node that the dropped edges exhaust is reclaimed or waits. -/
  complete : ∀ h, h ≠ r → g.ExhaustedBy (c.dropped g h) h → h ∈ c.report ∨ h ∈ c.pending
  /-- The report is in an order in which each node was exhausted when its turn came. -/
  justified : g.Justified r c.report.toList

/-- At the start no edge was dropped. -/
@[simp] theorem dropped_start (h : Handle) : dropped g (start g r) h = 0 := by
  simp [dropped, start]

/-- A cascade at its beginning. -/
theorem accounts_start (hr : g.contains r) : Accounts g r (start g r) where
  id := rfl
  policy := rfl
  nodup := by simp [start]
  live h hh := by
    obtain rfl : h = r := by simpa [start] using hh
    exact hr
  edges_le h := Nat.zero_le _
  get? h := by
    simp only [dropped_start, Count.minus_zero]
    simp [start]
  start := Or.inr (List.mem_singleton.2 rfl)
  exhausted h hh := Or.inl (by simpa [start] using hh)
  complete h _ hex := by
    obtain ⟨e, -, -, hpos, hle⟩ := hex
    rw [dropped_start] at hle
    omega
  justified := .nil

namespace Accounts

/-! ### Reading the account -/

/-- What is live during a cascade was live at its beginning, with more references by those
dropped. -/
theorem entry (hc : Accounts g r c) {e : Entry} (he : c.graph.get? h = some e) :
    h ∉ c.report ∧ ∃ e₀, g.get? h = some e₀ ∧
      e = { e₀ with count := e₀.count.minus (c.dropped g h) } := by
  rw [hc.get? h] at he
  split at he
  · cases he
  · rename_i hh
    obtain ⟨e₀, he₀, rfl⟩ := Option.map_eq_some_iff.1 he
    exact ⟨hh, e₀, he₀, rfl⟩

/-- A node that waits is not reclaimed. -/
theorem not_mem_report (hc : Accounts g r c) (hh : h ∈ c.pending) : h ∉ c.report := fun hmem =>
  (List.nodup_append.1 hc.nodup).2.2 h (Array.mem_toList_iff.2 hmem) h hh rfl

/-- A node that waits is live. -/
theorem get?_pending (hc : Accounts g r c) (hh : h ∈ c.pending) :
    ∃ e, c.graph.get? h = some e := by
  obtain ⟨e₀, he₀⟩ := Graph.contains_iff.1 (hc.live h (Or.inr hh))
  rw [hc.get? h, if_neg (hc.not_mem_report hh), he₀]
  exact ⟨_, rfl⟩

/-- A node that waits has no references left. -/
theorem count_pending (hc : Accounts g r c) (hr : ∀ e, g.get? r = some e → e.count.value = 0)
    {e : Entry} (hh : h ∈ c.pending) (he : c.graph.get? h = some e) : e.count.value = 0 := by
  obtain ⟨-, e₀, he₀, rfl⟩ := hc.entry he
  rw [Count.value_minus]
  rcases hc.exhausted h (Or.inr hh) with rfl | ⟨e₁, he₁, -, -, hle⟩
  · rw [hr e₀ he₀, Nat.zero_sub]
  · obtain rfl : e₁ = e₀ := Option.some_inj.1 (he₁.symm.trans he₀)
    exact Nat.sub_eq_zero_of_le hle

/-! ### Dropping an edge -/

section drop

variable {parent child : Handle} {edges : List (Handle × Handle)}

/-- One edge fewer to drop is one edge more dropped. -/
theorem dropped_cons (hc : Accounts g r c) (hce : c.edges = (parent, child) :: edges)
    (hde : d.edges = edges) (hreport : d.report = c.report) (h : Handle) :
    d.dropped g h = c.dropped g h + if h = child then 1 else 0 := by
  have hle := hc.edges_le h
  rw [hce, List.map_cons, List.count_cons] at hle
  unfold dropped
  rw [hreport, hce, hde, List.map_cons, List.count_cons]
  by_cases hh : h = child
  · subst hh
    simp only [beq_self_eq_true, ↓reduceIte] at hle ⊢
    omega
  · simp [hh, Ne.symm hh]

/-- What has to be shown when an edge is dropped: the entries are right again, and a node that the
edge exhausts is made to wait. -/
theorem drop (hc : Accounts g r c) (hce : c.edges = (parent, child) :: edges)
    (hde : d.edges = edges) (hreport : d.report = c.report) (hid : d.graph.id = c.graph.id)
    (hpolicy : d.graph.policy = c.graph.policy)
    (hget : ∀ h, d.graph.get? h = if h = child then
      (c.graph.get? h).map fun e => { e with count := e.count.minus 1 } else c.graph.get? h)
    (hpending : d.pending = c.pending ∧ (child ≠ r → g.ExhaustedBy (c.dropped g child + 1) child →
        child ∈ c.report ∨ child ∈ c.pending) ∨
      d.pending = child :: c.pending ∧ child ∉ c.report ∧ child ∉ c.pending ∧
        g.ExhaustedBy (c.dropped g child + 1) child) :
    Accounts g r d := by
  have hdrop := hc.dropped_cons hce hde hreport
  have hsub : ∀ h ∈ c.pending, h ∈ d.pending := by
    intro h hh
    rcases hpending with ⟨hp, -⟩ | ⟨hp, -⟩
    · rwa [hp]
    · rw [hp]
      exact List.mem_cons_of_mem _ hh
  exact {
    id := hid.trans hc.id
    policy := hpolicy.trans hc.policy
    nodup := by
      rw [hreport]
      rcases hpending with ⟨hp, -⟩ | ⟨hp, hnr, hnp, -⟩
      · rw [hp]
        exact hc.nodup
      · rw [hp, List.perm_middle.nodup_iff, List.nodup_cons, List.mem_append, not_or]
        exact ⟨⟨fun hm => hnr (Array.mem_toList_iff.1 hm), hnp⟩, hc.nodup⟩
    live := by
      intro h hh
      rcases hpending with ⟨hp, -⟩ | ⟨hp, -, -, e, he, -⟩
      · rw [hreport, hp] at hh
        exact hc.live h hh
      · rw [hreport, hp, List.mem_cons] at hh
        rcases hh with hh | rfl | hh
        · exact hc.live h (Or.inl hh)
        · exact Graph.contains_iff.2 ⟨e, he⟩
        · exact hc.live h (Or.inr hh)
    edges_le := by
      intro h
      have hle := hc.edges_le h
      rw [hce, List.map_cons] at hle
      rw [hde, hreport]
      exact List.count_le_count_cons.trans hle
    get? := by
      intro h
      rw [hget h, hc.get? h, hreport, hdrop h]
      by_cases hh : h = child
      · subst hh
        simp only [↓reduceIte]
        split
        · rfl
        · rw [Option.map_map]
          rfl
      · simp [hh]
    start := by
      rw [hreport]
      exact hc.start.imp_right (hsub r)
    exhausted := by
      intro h hh
      have old : h ∈ c.report ∨ h ∈ c.pending → h = r ∨ g.ExhaustedBy (d.dropped g h) h := fun hm =>
        (hc.exhausted h hm).imp_right fun hex => hex.mono (by rw [hdrop h]; omega)
      rw [hreport] at hh
      rcases hpending with ⟨hp, -⟩ | ⟨hp, -, -, hex⟩
      · exact old (hp ▸ hh)
      · rw [hp, List.mem_cons] at hh
        rcases hh with hh | rfl | hh
        · exact old (Or.inl hh)
        · rw [hdrop, if_pos rfl]
          exact Or.inr hex
        · exact old (Or.inr hh)
    complete := by
      intro h hne hex
      rw [hreport]
      rw [hdrop h] at hex
      by_cases hh : h = child
      · subst hh
        rw [if_pos rfl] at hex
        rcases hpending with ⟨hp, hdone⟩ | ⟨hp, -⟩
        · rw [hp]
          exact hdone hne hex
        · rw [hp]
          exact Or.inr List.mem_cons_self
      · rw [if_neg hh, Nat.add_zero] at hex
        exact (hc.complete h hne hex).imp_right (hsub h)
    justified := by
      rw [hreport]
      exact hc.justified }

end drop

/-! ### Every move keeps the account -/

variable {G : Graph} {parent child : Handle} {edges : List (Handle × Handle)}
  {pending : List Handle} {report : Array Handle}

/-- Lowering a count. The child had a reference left, so it did not wait before. -/
theorem lower {e : Entry} {count : Count}
    (hc : Accounts g r ⟨G, (parent, child) :: edges, pending, report⟩)
    (hr : ∀ e, g.get? r = some e → e.count.value = 0)
    (he : G.get? child = some e) (hcount : e.count.decrement? = some count) :
    Accounts g r ⟨G.lowerTo child count, edges,
      if count.isZero && !e.rooted then child :: pending else pending, report⟩ := by
  have hone := Count.value_of_decrement? hcount
  have hfresh : child ∉ pending := fun hmem => by
    have hzero := hc.count_pending hr hmem he
    omega
  have hget : ∀ h, (G.lowerTo child count).get? h = if h = child then
      (G.get? h).map fun e => { e with count := e.count.minus 1 } else G.get? h := by
    intro h
    have hminus : count = e.count.minus 1 := Count.ext (by rw [Count.value_minus]; omega)
    rw [G.get?_lowerTo, hminus]
    by_cases hh : h = child
    · subst hh
      simp [he]
    · simp [hh]
  obtain ⟨hnot, e₀, he₀, rfl⟩ := hc.entry he
  rw [Count.value_minus] at hone
  refine hc.drop rfl rfl rfl (G.id_lowerTo child count) (G.policy_lowerTo child count) hget ?_
  by_cases hgo : count.isZero && !e₀.rooted
  · obtain ⟨hzero, hroot⟩ := Bool.and_eq_true_iff.1 hgo
    have hzero := Count.isZero_iff.1 hzero
    exact Or.inr ⟨if_pos hgo, hnot, hfresh, e₀, he₀, by simpa using hroot, by omega, by omega⟩
  · refine Or.inl ⟨if_neg hgo, ?_⟩
    rintro - ⟨e₁, he₁, hroot, -, hle⟩
    obtain rfl : e₁ = e₀ := Option.some_inj.1 (he₁.symm.trans he₀)
    have hzero : count.isZero := Count.isZero_iff.2 (by omega)
    exact absurd (by simp [hroot, hzero]) hgo

/-- Telling of a defect. The child is gone, or had no reference left to lose. -/
theorem defect {fault : Fault}
    (hc : Accounts g r ⟨G, (parent, child) :: edges, pending, report⟩)
    (hf : G.edgeFate parent child = .defective fault) :
    Accounts g r ⟨G.note child fault, edges, pending, report⟩ := by
  have hnone : ∀ e, G.get? child = some e → e.count.value = 0 := by
    intro e he
    rcases Graph.of_edgeFate_eq_defective hf with ⟨hdead, -⟩ | ⟨e', he', hzero, -⟩
    · rw [he] at hdead
      cases hdead
    · rwa [Option.some_inj.1 (he.symm.trans he')]
  refine hc.drop rfl rfl rfl (G.id_note child fault) (G.policy_note child fault) ?_
    (Or.inl ⟨rfl, ?_⟩)
  · intro h
    show (G.note child fault).get? h = _
    rw [G.get?_note]
    by_cases hh : h = child
    · subst hh
      rw [if_pos rfl]
      rcases he : G.get? h with _ | e
      · rfl
      · have hminus : e.count.minus 1 = e.count := Count.ext (by
          rw [Count.value_minus, hnone e he])
        rw [Option.map_some, hminus]
    · rw [if_neg hh]
  · rintro hne ⟨e₀, he₀, hroot, hpos, hle⟩
    by_cases hmem : child ∈ report
    · exact Or.inl hmem
    · -- the child is live, so the edges dropped before exhausted it already
      have hlive := hc.get? child
      rw [if_neg hmem, he₀] at hlive
      have hzero := hnone _ hlive
      rw [Count.value_minus] at hzero
      exact hc.complete child hne ⟨e₀, he₀, hroot, hpos, by omega⟩

/-- Reclaiming a node. Its edges are dropped one by one from now on. -/
theorem reclaim {e : Entry} (hc : Accounts g r ⟨G, [], h :: pending, report⟩)
    (he : G.get? h = some e) :
    Accounts g r ⟨G.reclaim h e.node.kind, e.node.children.map fun child => (h, child), pending,
      report.push h⟩ := by
  have hnot : h ∉ report := hc.not_mem_report List.mem_cons_self
  obtain ⟨-, e₀, he₀, rfl⟩ := hc.entry he
  have hocc : ∀ x, g.occurrences {p | p ∈ report.push h} x =
      e₀.node.children.count x + g.occurrences {p | p ∈ report} x := by
    intro x
    have hset : {p | p ∈ report.push h} = insert h {p | p ∈ report} := by
      ext p
      simp [or_comm]
    rw [hset, Graph.occurrences_insert (S := {p | p ∈ report}) hnot, Graph.childrenOf_of_get? he₀]
  have hedges : ∀ x, ((e₀.node.children.map fun child => (h, child)).map Prod.snd).count x =
      e₀.node.children.count x := by
    intro x
    rw [List.map_map]
    congr 1
    exact List.map_id _
  -- no edge of the new node is dropped yet, and the edges of the others all are
  have hdrop : ∀ x, dropped g ⟨G.reclaim h e₀.node.kind,
      e₀.node.children.map fun child => (h, child), pending, report.push h⟩ x =
      dropped g ⟨G, [], h :: pending, report⟩ x := by
    intro x
    unfold dropped
    rw [hocc, hedges]
    simp
  exact {
    id := (G.id_reclaim h _).trans hc.id
    policy := (G.policy_reclaim h _).trans hc.policy
    nodup := by
      have := hc.nodup
      rw [Array.toList_push, List.append_assoc]
      exact this
    live := by
      intro x hx
      apply hc.live x
      simp only [Array.mem_push, List.mem_cons] at hx ⊢
      tauto
    edges_le := by
      intro x
      rw [hocc, hedges]
      omega
    get? := by
      intro x
      rw [hdrop]
      show (G.reclaim h _).get? x = _
      rw [G.get?_reclaim, hc.get? x]
      by_cases hx : x = h
      · simp [hx]
      · simp [hx]
    start := by
      have := hc.start
      simp only [Array.mem_push, List.mem_cons] at this ⊢
      tauto
    exhausted := by
      intro x hx
      rw [hdrop]
      apply hc.exhausted x
      simp only [Array.mem_push, List.mem_cons] at hx ⊢
      tauto
    complete := by
      intro x hne hex
      rw [hdrop] at hex
      have := hc.complete x hne hex
      simp only [Array.mem_push, List.mem_cons] at this ⊢
      tauto
    justified := by
      rw [Array.toList_push]
      have hex := hc.exhausted h (Or.inr List.mem_cons_self)
      exact .snoc hc.justified (by simpa [dropped] using hex) }

/-- No pending node is skipped. -/
theorem not_skip (hc : Accounts g r ⟨G, [], h :: pending, report⟩) : G.get? h ≠ none := by
  obtain ⟨e, he⟩ := hc.get?_pending (h := h) List.mem_cons_self
  rw [he]
  exact Option.some_ne_none e

/-- **Every move keeps the account.** -/
theorem move (hr : ∀ e, g.get? r = some e → e.count.value = 0) (hc : Accounts g r c)
    (hm : Move c d) : Accounts g r d := by
  cases hm with
  | lower he hcount => exact hc.lower hr he hcount
  | defect hf _ => exact hc.defect hf
  | reclaim he => exact hc.reclaim he
  | skip he => exact absurd he hc.not_skip

/-! ### Any order will do -/

/-- The order of edges and of pending nodes does not matter to the account. -/
theorem reordered (hc : Accounts g r c) (hd : Reordered c d) : Accounts g r d := by
  have hmem : ∀ h, h ∈ d.pending ↔ h ∈ c.pending := fun h => hd.pending.mem_iff
  have hcount : ∀ h, (d.edges.map Prod.snd).count h = (c.edges.map Prod.snd).count h := fun h =>
    (hd.edges.map Prod.snd).count_eq h
  have hdrop : ∀ h, d.dropped g h = c.dropped g h := by
    intro h
    rw [dropped, dropped, hd.report, hcount]
  exact {
    id := hd.graph ▸ hc.id
    policy := hd.graph ▸ hc.policy
    nodup := by
      rw [hd.report]
      exact (hd.pending.append_left _).nodup_iff.2 hc.nodup
    live := by
      intro h hh
      rw [hd.report, hmem] at hh
      exact hc.live h hh
    edges_le := by
      intro h
      rw [hcount, hd.report]
      exact hc.edges_le h
    get? := by
      intro h
      rw [hd.graph, hd.report, hdrop]
      exact hc.get? h
    start := by
      rw [hd.report, hmem]
      exact hc.start
    exhausted := by
      intro h hh
      rw [hd.report, hmem] at hh
      rw [hdrop]
      exact hc.exhausted h hh
    complete := by
      intro h hne hex
      rw [hdrop] at hex
      rw [hd.report, hmem]
      exact hc.complete h hne hex
    justified := by
      rw [hd.report]
      exact hc.justified }

/-- Whatever the order of work, the account is kept. -/
theorem stepsInAnyOrder (hr : ∀ e, g.get? r = some e → e.count.value = 0) (hc : Accounts g r c)
    (hd : StepsInAnyOrder c d) : Accounts g r d := by
  induction hd with
  | refl => exact hc
  | tail _ hstep ih =>
      obtain ⟨c', hreorder, hnext⟩ := hstep
      exact (ih.reordered hreorder).move hr (move_of_step hnext)

/-! ### The end of a cascade -/

section finished

variable (hc : Accounts g r c) (he : c.edges = []) (hp : c.pending = [])

include he in
/-- At the end all edges of the reclaimed nodes are dropped. -/
theorem dropped_of_finished (h : Handle) :
    c.dropped g h = g.occurrences {p | p ∈ c.report} h := by
  simp [dropped, he]

include hc he hp

/-- **The nodes reclaimed are the least set that holds the released node and what it exhausts.** -/
theorem isLeast : IsLeast {S | g.ReleaseClosed r S} {h | h ∈ c.report} := by
  refine ⟨⟨?_, fun h hne hex => ?_⟩, ?_⟩
  · simpa [hp] using hc.start
  · rw [← dropped_of_finished he h] at hex
    simpa [hp] using hc.complete h hne hex
  · intro S hS h hh
    exact hc.justified.mem_of_closed hS h (Array.mem_toList_iff.2 hh)

omit hp in
/-- The others keep everything but the references from reclaimed nodes. -/
theorem get?_of_finished (h : Handle) : c.graph.get? h = if h ∈ c.report then none else
    (g.get? h).map fun e =>
      { e with count := e.count.minus (g.occurrences {p | p ∈ c.report} h) } := by
  rw [hc.get? h, dropped_of_finished he]

end finished

end Accounts

end Cascade

end SharedExpr
