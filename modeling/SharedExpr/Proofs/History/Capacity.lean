import SharedExpr.Proofs.History.Drift
import SharedExpr.Proofs.Release.Fixpoint

/-!
# What can be counted in 32 bits

A count stops at `Count.max`, and references beyond that are not counted; but every edge that is
dropped takes a reference away. As long as a node never has more edges than can be counted, its
count is never less than the number of its edges, and then no release takes it from a node that is
still there. With one edge more this is no longer so.

An audit counts edges in 32 bits as well. Where references were taken away directly, a node can have
too many edges for that though its count is small, and then the audit does not see that it is wrong.

* `Graph.Sufficient` — the count of a node is not less than the number of edges to it.
* `Graph.Sufficient.contains_release` — a release keeps a node with a sufficient count that is named
  by a node which it leaves.
* `History.sufficient` — every command keeps a count sufficient as long as the edges can be
  counted, but for references that are taken away directly.
* `History.crowded` — one node, named once by a call that is kept and `n` times by another one.
* `History.contains_release_crowded_iff` — **if the other call is released, the node outlives it
  exactly if `n` is less than the largest count**; if not, the call that is kept names a node that
  is gone (`History.mem_edges_release_crowded`).
* `History.operand_kept` — **with no more edges to it than can be counted, a node is kept by each
  node that names it**, whatever is released and however the release ends.
* `History.stripped` — a variable added to itself `n` times, where both references are taken away
  each time. `History.audit_stripped` — **an audit overlooks this if `n` is a multiple of
  `2 ^ 31`**, though no count ever came near the largest one.
-/

namespace SharedExpr

/-! ### Counts that cover the edges -/

namespace Graph

variable {g k : Graph} {h l : Handle} {node : Node}

/-- The count of the node is not less than the number of edges to it. -/
def Sufficient (g : Graph) (h : Handle) : Prop :=
  ∀ e, g.get? h = some e → g.inDegree h ≤ e.count.value

/-- To be sufficient is a matter of nodes and counts. -/
theorem Sufficient.congr (hg : g.Sufficient h) (hnode : ∀ p, k.node? p = g.node? p)
    (hcount : k.count? h = g.count? h) : k.Sufficient h := by
  intro e he
  rw [count?, he, Option.map_some] at hcount
  obtain ⟨e₀, he₀, hvalue⟩ := Option.map_eq_some_iff.1 hcount.symm
  rw [inDegree_congr fun p => childrenOf_congr (hnode p), ← hvalue]
  exact hg e₀ he₀

/-- A reference that cannot be counted is not needed either. -/
theorem Sufficient.raise (hg : g.Sufficient h) (l : Handle) : (g.raise l).Sufficient h := by
  intro e he
  rw [inDegree_congr fun p => childrenOf_congr (g.node?_raise l p)]
  rw [get?_raise] at he
  split at he
  · rename_i hl
    obtain ⟨e₀, he₀, rfl⟩ := Option.map_eq_some_iff.1 he
    have hle := hg e₀ (hl ▸ he₀)
    have hmax := e₀.count.value_le
    rw [Count.value_increment]
    omega
  · exact hg e he

/-- A reference to another node is taken away. -/
theorem Sufficient.lowerTo (hg : g.Sufficient h) (hl : l ≠ h) (count : Count) :
    (g.lowerTo l count).Sufficient h := by
  apply hg.congr fun p => g.node?_lowerTo l count p
  rw [count?, get?_lowerTo, if_neg hl.symm]
  rfl

/-- The new edges are counted, as long as there are not too many. -/
theorem Sufficient.built (hg : g.Sufficient h) (hnew : ¬ g.Issued h → g.inDegree h = 0)
    (hlive : ∀ c ∈ node.children, g.contains c)
    (hroom : (node.children.foldl Graph.raise (g.add node).2).inDegree h ≤ Count.max) :
    (node.children.foldl Graph.raise (g.add node).2).Sufficient h := by
  intro e he
  rw [inDegree_built] at hroom ⊢
  rw [get?_built hlive] at he
  by_cases hh : h = (g.add node).1
  · rw [hnew (hh ▸ g.not_issued_add_fst node),
      List.count_eq_zero.2 (hh ▸ add_fst_not_mem_children hlive)]
    exact Nat.zero_le _
  · rw [if_neg hh] at he
    obtain ⟨e₀, he₀, rfl⟩ := Option.map_eq_some_iff.1 he
    have hle := hg e₀ he₀
    rw [Count.value_plus]
    omega

end Graph

/-! ### Sufficient counts and cascades -/

namespace Cascade.Accounts

variable {g : Graph} {r p h : Handle} {c : Cascade} (hc : Accounts g r c) (hg : g.Sufficient h)
include hc hg

/-- **A node with a sufficient count is not reclaimed before the nodes that name it.** -/
theorem not_mem_report_of_sufficient (hr : ∀ e, g.get? r = some e → e.count.value = 0)
    (hp : (p, h) ∈ c.graph.edges) : h ∉ c.report := by
  rw [Graph.mem_edges_iff, hc.childrenOf p] at hp
  by_cases hpr : p ∈ c.report
  · rw [if_pos hpr] at hp
    exact absurd hp List.not_mem_nil
  · rw [if_neg hpr] at hp
    intro hh
    apply hpr
    -- all references to the node come from nodes that are gone, and so do all edges to it
    have hle : g.inDegree h ≤ g.occurrences {p | p ∈ c.report} h := by
      obtain ⟨e, he⟩ := Graph.contains_iff.1 (hc.live h (Or.inl hh))
      have hsuff := hg e he
      have hdropped := dropped_le g c h
      rcases hc.exhausted h (Or.inl hh) with rfl | ⟨e', he', -, -, hexhausted⟩
      · have hzero := hr e he
        omega
      · obtain rfl : e' = e := Option.some_inj.1 (he'.symm.trans he)
        omega
    exact Graph.mem_of_inDegree_le_occurrences hle (Graph.mem_edges_iff.2 hp)

/-- A node loses no more references than edges. -/
theorem sufficient : c.graph.Sufficient h := by
  intro e he
  obtain ⟨-, e₀, he₀, rfl⟩ := hc.entry he
  have hsum := Graph.inDegree_add_occurrences (S := {p | p ∈ c.report}) (g := g)
    (fun p hp => (hc.childrenOf p).trans (if_pos hp))
    (fun p hp => (hc.childrenOf p).trans (if_neg hp)) h
  have hsuff := hg e₀ he₀
  have hdropped := dropped_le g c h
  rw [Count.value_minus]
  omega

end Cascade.Accounts

namespace Graph

variable {g : Graph} {h p : Handle}

/-- A root that is given up leaves a sufficient count sufficient. -/
theorem Sufficient.unroot (hg : g.Sufficient h) (l : Handle) : (g.unroot l).Sufficient h :=
  hg.congr (fun p => g.node?_setRooted l p false) (g.count?_setRooted l false h)

/-- A release leaves a sufficient count sufficient. -/
theorem Sufficient.release (hg : g.Sufficient h) (r : Root) : (g.release r).2.Sufficient h := by
  have hrel := g.release_released r
  generalize g.release r = result at hrel
  cases hrel with
  | refused hr => exact hg
  | unrooted he hroot hpos => exact hg.unroot r.node
  | reclaimed he hroot hzero hm hedges hpending =>
      exact (accounts_of_moves hm he hzero).sufficient (hg.unroot r.node)
  | @aborted e c parent child edges fault he hroot hzero hm hpolicy hedges hf =>
      have hsuff := (accounts_of_moves hm he hzero).sufficient (hg.unroot r.node)
      refine hsuff.congr (c.graph.node?_note child fault) ?_
      rw [count?, get?_note]
      rfl

/-- **A release keeps a node with a sufficient count if a node which it leaves names it.** -/
theorem Sufficient.contains_release (hg : g.Sufficient h) (hh : g.contains h) {r : Root}
    (hp : (p, h) ∈ (g.release r).2.edges) : (g.release r).2.contains h := by
  have hun : (g.unroot r.node).contains h := by
    unfold Graph.unroot
    rwa [contains_congr (g.node?_setRooted r.node h false)]
  have hrel := g.release_released r
  generalize g.release r = result at hrel hp
  cases hrel with
  | refused hr => exact hh
  | unrooted he hroot hpos => exact hun
  | @reclaimed e c he hroot hzero hm hedges hpending =>
      have hc := accounts_of_moves hm he hzero
      have hnot : h ∉ c.report :=
        hc.not_mem_report_of_sufficient (hg.unroot r.node) (count_unroot_of_zero he hzero) hp
      show c.graph.contains h
      rw [contains, hc.get? h, if_neg hnot, Option.isSome_map]
      exact hun
  | @aborted e c parent child edges fault he hroot hzero hm hpolicy hedges hf =>
      have hc := accounts_of_moves hm he hzero
      have hp' : (p, h) ∈ c.graph.edges := by
        rw [mem_edges_iff] at hp ⊢
        rwa [← childrenOf_congr (c.graph.node?_note child fault p)]
      have hnot : h ∉ c.report :=
        hc.not_mem_report_of_sufficient (hg.unroot r.node) (count_unroot_of_zero he hzero) hp'
      rw [contains, get?_note, hc.get? h, if_neg hnot, Option.isSome_map]
      exact hun

end Graph

/-! ### Every point of a run -/

namespace History

variable {H : History} {c : Command} {node : Node} {x p h l : Handle} {n : ℕ}

/-- Every command leaves a sufficient count sufficient, if it takes no reference from the node
directly and the edges can be counted. -/
theorem sufficient_andThen (hH : H.graph.Sufficient x)
    (hdirect : c.decremented? ≠ some x)
    (hroom : (H.andThen c).graph.inDegree x ≤ Count.max) : (H.andThen c).graph.Sufficient x := by
  rw [graph_andThen] at hroom ⊢
  induction c using Command.byKind with
  | build c node hc =>
      rw [Graph.perform_of_node? hc] at hroom ⊢
      have hb := H.graph.build_built node
      generalize H.graph.build node = result at hb hroom
      cases hb with
      | refused hm hdead => exact hH
      | done hlive => exact hH.built inDegree_of_not_issued hlive hroom
  | increment l =>
      rw [Graph.perform]
      rcases H.graph.increment_cases l with ⟨fault, hinc⟩ | ⟨-, n, hinc⟩
      · rw [hinc]
        exact hH
      · rw [hinc]
        exact hH.raise l
  | decrement l =>
      rw [Graph.perform]
      rcases H.graph.decrement_cases l with ⟨e, count, -, -, hdec⟩ | ⟨-, hstore, hid, -⟩
      · rw [hdec]
        exact hH.lowerTo (fun hl => hdirect (congrArg some hl)) count
      · have hget := Graph.get?_congr hid hstore
        exact hH.congr (fun p => congrArg _ (hget p)) (congrArg _ (hget x))
  | root l => exact hH.congr (H.graph.node?_root l) (H.graph.count?_root l x)
  | release r => exact hH.release r
  | takeDefects => exact hH

/-- The count of a node from which no reference is taken directly is sufficient, as long as its
edges can be counted. -/
theorem sufficient (H : History) (hdirect : ∀ c ∈ H.commands, c.decremented? ≠ some x)
    (hroom : ∀ K ∈ H.past, K.graph.inDegree x ≤ Count.max) : H.graph.Sufficient x := by
  induction H using History.induction with
  | opened id settings =>
      intro e he
      rw [get?_opened] at he
      cases he
  | andThen H c ih =>
      apply sufficient_andThen
      · exact ih (fun c hc => hdirect c (List.mem_append_left _ hc)) (forall_past_of_andThen hroom)
      · exact hdirect c (List.mem_append_right _ (List.mem_singleton_self c))
      · exact hroom _ (self_mem_past _)

/-- A construction over live operands is carried out. -/
theorem graph_andThen_of_live (hc : c.node? = some node)
    (hlive : ∀ y ∈ node.children, H.graph.contains y) :
    (H.andThen c).graph = node.children.foldl Graph.raise (H.graph.add node).2 := by
  rw [graph_andThen, Graph.perform_of_node? hc]
  have hb := H.graph.build_built node
  generalize H.graph.build node = result at hb
  cases hb with
  | refused hm hdead => exact absurd (hlive _ hm) hdead
  | done _ => rfl

/-! ### A node named from two sides -/

/-- A variable, and a call of it that is held by a root. -/
def sole : History where
  id := ⟨1⟩
  settings := .standard
  commands := [.varUse "x", .call "g" [.ofSlot 1 0], .root (.ofSlot 1 1)]

/-- Another call, which names the variable any number of times. -/
def crowd (n : ℕ) : Node :=
  .call "f" (List.replicate n (.ofSlot 1 0))

/-- The other call is built. -/
def crowding (n : ℕ) : History :=
  sole.andThen (.call "f" (List.replicate n (.ofSlot 1 0)))

/-- The other call is held by a root as well. -/
def crowded (n : ℕ) : History :=
  (crowding n).andThen (.root (.ofSlot 1 2))

/-- The variable that the other call names is live. -/
theorem contains_of_mem_crowd : ∀ c ∈ (crowd n).children, sole.graph.contains c := by
  intro c hc
  obtain rfl := List.eq_of_mem_replicate hc
  decide

/-- The other call names the variable `n` times. -/
theorem count_crowd (n : ℕ) : (crowd n).children.count (.ofSlot 1 0) = n :=
  List.count_replicate_self

/-- Building the other call adds it and counts its edges. -/
theorem graph_crowding (n : ℕ) :
    (crowding n).graph = (crowd n).children.foldl Graph.raise (sole.graph.add (crowd n)).2 :=
  graph_andThen_of_live rfl contains_of_mem_crowd

/-- The nodes and counts of the graph with the other call, before that is rooted. -/
theorem get?_crowding (n : ℕ) (h : Handle) : (crowding n).graph.get? h =
    if h = .ofSlot 1 2 then some ⟨crowd n, .zero, false⟩ else
      (sole.graph.get? h).map fun e =>
        { e with count := e.count.plus ((crowd n).children.count h) } := by
  have hnew : (sole.graph.add (crowd n)).1 = .ofSlot 1 2 := rfl
  rw [graph_crowding, ← hnew]
  exact Graph.get?_built contains_of_mem_crowd h

/-- The nodes and counts of a crowded graph. -/
theorem get?_crowded (n : ℕ) (h : Handle) : (crowded n).graph.get? h =
    if h = .ofSlot 1 2 then some ⟨crowd n, .zero, true⟩ else
      (sole.graph.get? h).map fun e =>
        { e with count := e.count.plus ((crowd n).children.count h) } := by
  have hroot : ((crowding n).graph.root (.ofSlot 1 2)).2 =
      ((crowding n).graph.setRooted (.ofSlot 1 2) true).tell (.rooted (.ofSlot 1 2)) := by
    rw [Graph.root, get?_crowding, if_pos rfl]
    rfl
  rw [crowded, graph_andThen, Graph.perform]
  show ((crowding n).graph.root (.ofSlot 1 2)).2.get? h = _
  rw [hroot, Graph.get?_tell, Graph.get?_setRooted, get?_crowding, get?_crowding, if_pos rfl]
  split <;> rfl

/-- The variable has a reference for each of its edges, up to the largest count. -/
theorem get?_crowded_variable (n : ℕ) : ∃ e, (crowded n).graph.get? (.ofSlot 1 0) = some e ∧
    e.rooted = false ∧ e.count.value = min (1 + n) Count.max := by
  have hx : sole.graph.get? (.ofSlot 1 0) = some ⟨.varUse "x", ⟨1, by decide⟩, false⟩ := by decide
  rw [get?_crowded, if_neg (by decide), hx, count_crowd]
  exact ⟨_, rfl, rfl, Count.value_plus _ _⟩

/-- The call that is kept is held by a root. -/
theorem get?_crowded_call (n : ℕ) : ∃ e, (crowded n).graph.get? (.ofSlot 1 1) = some e ∧
    e.rooted = true ∧ e.node = .call "g" [.ofSlot 1 0] := by
  have hg : sole.graph.get? (.ofSlot 1 1) = some ⟨.call "g" [.ofSlot 1 0], .zero, true⟩ := by
    decide
  rw [get?_crowded, if_neg (by decide), hg]
  exact ⟨_, rfl, rfl, rfl⟩

/-- One edge comes from the call that is kept, and `n` come from the other. -/
theorem inDegree_crowding (n : ℕ) : (crowding n).graph.inDegree (.ofSlot 1 0) = n + 1 := by
  have hsole : sole.graph.inDegree (.ofSlot 1 0) = 1 := by decide
  rw [graph_crowding, Graph.inDegree_built, hsole, count_crowd, Nat.add_comm]

/-- A root makes no edge. -/
theorem inDegree_crowded (n : ℕ) : (crowded n).graph.inDegree (.ofSlot 1 0) = n + 1 := by
  rw [crowded, graph_andThen, ← inDegree_crowding]
  exact Graph.inDegree_congr
    (fun p => Graph.childrenOf_congr ((crowding n).graph.node?_root (.ofSlot 1 2) p)) _

/-- At no point are there more edges to the variable than at the end. -/
theorem inDegree_of_mem_past_crowded (n : ℕ) :
    ∀ K ∈ (crowded n).past, K.graph.inDegree (.ofSlot 1 0) ≤ n + 1 := by
  have hsole : ∀ K ∈ sole.past, K.graph.inDegree (.ofSlot 1 0) ≤ 1 := by decide
  intro K hK
  rw [crowded, past_andThen, crowding, past_andThen, List.append_assoc, List.mem_append] at hK
  rcases hK with hK | hK
  · exact (hsole K hK).trans (Nat.le_add_left 1 n)
  · rcases List.mem_pair.1 hK with rfl | rfl
    · exact (inDegree_crowding n).le
    · exact (inDegree_crowded n).le

/-- References are counted by constructions only. -/
theorem countsDirectly_crowded (n : ℕ) : ∀ c ∈ (crowded n).commands, c.countsDirectly = false := by
  intro c hc
  simp only [crowded, crowding, sole, andThen, List.mem_append, List.mem_cons, List.not_mem_nil,
    or_false] at hc
  rcases hc with ((rfl | rfl | rfl) | rfl) | rfl <;> rfl

/-- No reference to the variable is taken directly. -/
theorem decremented?_crowded (n : ℕ) :
    ∀ c ∈ (crowded n).commands, c.decremented? ≠ some (.ofSlot 1 0) := by
  intro c hc hx
  have hcounts := countsDirectly_crowded n c hc
  cases c with
  | decrement h => cases hcounts
  | _ => cases hx

/-- The other call is released. -/
theorem exists_release_crowded (n : ℕ) : ∃ report G,
    (crowded n).graph.release ⟨.ofSlot 1 2⟩ = (.done report, G) ∧
      IsLeast {S | (crowded n).graph.ReleaseClosed (.ofSlot 1 2) S} {h | h ∈ report} ∧
      (crowded n).graph.Without report G := by
  have hf : (crowded n).graph.get? (.ofSlot 1 2) = some ⟨crowd n, .zero, true⟩ := by
    rw [get?_crowded, if_pos rfl]
  exact Graph.exists_release_eq_done (crowded n).policy_graph hf rfl rfl

/-- The call that is kept still names the variable. -/
theorem mem_edges_release_crowded (n : ℕ) : (.ofSlot 1 1, .ofSlot 1 0) ∈
    ((crowded n).graph.release ⟨.ofSlot 1 2⟩).2.edges := by
  obtain ⟨report, G, hrel, hleast, hw⟩ := exists_release_crowded n
  obtain ⟨e, he, hroot, hnode⟩ := get?_crowded_call n
  have hkept : .ofSlot 1 1 ∉ report := by
    -- the nodes other than this one are closed, since a root holds it
    have hclosed : (crowded n).graph.ReleaseClosed (.ofSlot 1 2) {h | h ≠ .ofSlot 1 1} := by
      refine ⟨by decide, ?_⟩
      rintro h - ⟨e', he', hfree, -⟩ rfl
      obtain rfl := Option.some_inj.1 (he'.symm.trans he)
      rw [hroot] at hfree
      cases hfree
    intro hmem
    exact hleast.2 hclosed hmem rfl
  rw [hrel, Graph.mem_edges_iff]
  show Handle.ofSlot 1 0 ∈ G.childrenOf _
  rw [Graph.childrenOf, hw.node?, if_neg hkept, Graph.node?, he, Option.map_some, hnode]
  exact List.mem_singleton_self _

/-- If there are too many edges, the ones that go are all that were counted. -/
theorem not_contains_release_crowded (hn : Count.max ≤ n) :
    ¬ ((crowded n).graph.release ⟨.ofSlot 1 2⟩).2.contains (.ofSlot 1 0) := by
  obtain ⟨report, G, hrel, ⟨⟨hroot, hclosed⟩, -⟩, hw⟩ := exists_release_crowded n
  obtain ⟨e, he, hfree, hcount⟩ := get?_crowded_variable n
  have hchildren : (crowded n).graph.childrenOf (.ofSlot 1 2) = (crowd n).children := by
    rw [Graph.childrenOf, Graph.node?, get?_crowded, if_pos rfl]
    rfl
  have hdropped : n ≤ (crowded n).graph.occurrences {h | h ∈ report} (.ofSlot 1 0) := by
    calc n = (crowded n).graph.occurrences (insert (.ofSlot 1 2) ∅) (.ofSlot 1 0) := by
          rw [Graph.occurrences_insert (Set.notMem_empty _), Graph.occurrences_empty, hchildren]
          exact (count_crowd n).symm
      _ ≤ _ := Graph.occurrences_mono (by simpa using hroot) _
  have hgone : .ofSlot 1 0 ∈ report := by
    refine hclosed _ (by decide) ⟨e, he, hfree, ?_, ?_⟩
    · rw [hcount]
      exact Nat.le_min.2 ⟨Nat.le_add_right 1 n, by decide⟩
    · rw [hcount]
      exact (Nat.min_le_right _ _).trans (hn.trans hdropped)
  rw [hrel, hw.contains_iff]
  exact fun hlive => hlive.2 hgone

/-- The variable is live before the release. -/
theorem contains_crowded (n : ℕ) : (crowded n).graph.contains (.ofSlot 1 0) := by
  obtain ⟨e, he, -⟩ := get?_crowded_variable n
  exact Graph.contains_iff.2 ⟨e, he⟩

/-- **The bound is sharp.** The variable outlives the release of the other call exactly if all the
edges to it could be counted. -/
theorem contains_release_crowded_iff (n : ℕ) :
    ((crowded n).graph.release ⟨.ofSlot 1 2⟩).2.contains (.ofSlot 1 0) ↔ n < Count.max := by
  constructor
  · intro hlive
    by_contra hn
    exact not_contains_release_crowded (Nat.le_of_not_lt hn) hlive
  · intro hn
    have hroom : ∀ K ∈ (crowded n).past, K.graph.inDegree (.ofSlot 1 0) ≤ Count.max := fun K hK =>
      (inDegree_of_mem_past_crowded n K hK).trans hn
    exact ((crowded n).sufficient (decremented?_crowded n) hroom).contains_release
      (contains_crowded n) (mem_edges_release_crowded n)

/-! ### Operands that are kept -/

/-- **A node with no more edges than can be counted is kept by each node that names it.** In every
history and under either policy: if no reference to it was taken away directly, and at no point were
there more edges to it than the largest count, then no release reclaims it while some node that is
left still names it, however the release ends. -/
theorem operand_kept (H : History) (r : Root)
    (hdirect : ∀ c ∈ H.commands, c.decremented? ≠ some x)
    (hroom : ∀ K ∈ H.past, K.graph.inDegree x ≤ Count.max) (hx : H.graph.contains x)
    (hp : (p, x) ∈ (H.graph.release r).2.edges) : (H.graph.release r).2.contains x :=
  (H.sufficient hdirect hroom).contains_release hx hp

/-- With one edge from the call that is kept, the other call may have all the others that can be
counted. -/
theorem crowded_operand_kept :
    (∀ c ∈ (crowded (Count.max - 1)).commands, c.decremented? ≠ some (.ofSlot 1 0)) ∧
      (∀ K ∈ (crowded (Count.max - 1)).past, K.graph.inDegree (.ofSlot 1 0) ≤ Count.max) ∧
      (crowded (Count.max - 1)).graph.contains (.ofSlot 1 0) ∧
      (.ofSlot 1 1, .ofSlot 1 0) ∈
        ((crowded (Count.max - 1)).graph.release ⟨.ofSlot 1 2⟩).2.edges ∧
      ((crowded (Count.max - 1)).graph.release ⟨.ofSlot 1 2⟩).2.contains (.ofSlot 1 0) := by
  have hdirect := decremented?_crowded (Count.max - 1)
  have hroom : ∀ K ∈ (crowded (Count.max - 1)).past, K.graph.inDegree (.ofSlot 1 0) ≤ Count.max :=
    fun K hK => (inDegree_of_mem_past_crowded _ K hK).trans (by decide)
  have hlive := contains_crowded (Count.max - 1)
  have hedge := mem_edges_release_crowded (Count.max - 1)
  exact ⟨hdirect, hroom, hlive, hedge, operand_kept _ ⟨.ofSlot 1 2⟩ hdirect hroom hlive hedge⟩

/-- With one edge more the variable goes, though references were only ever counted by constructions,
and the call that is kept still names it. -/
theorem crowded_operand_not_kept :
    (∀ c ∈ (crowded Count.max).commands, c.countsDirectly = false) ∧
      (crowded Count.max).graph.inDegree (.ofSlot 1 0) = Count.max + 1 ∧
      (crowded Count.max).graph.contains (.ofSlot 1 0) ∧
      (.ofSlot 1 1, .ofSlot 1 0) ∈ ((crowded Count.max).graph.release ⟨.ofSlot 1 2⟩).2.edges ∧
      ¬ ((crowded Count.max).graph.release ⟨.ofSlot 1 2⟩).2.contains (.ofSlot 1 0) := by
  refine ⟨countsDirectly_crowded _, inDegree_crowded _, contains_crowded _,
    mem_edges_release_crowded _, ?_⟩
  rw [contains_release_crowded_iff]
  exact Nat.lt_irrefl _

/-! ### Edges that an audit cannot count -/

/-- The node is live, and it alone has references, of which there are `n`. -/
structure SoleCount (H : History) (x : Handle) (n : ℕ) : Prop where
  /-- The node is live. -/
  live : H.graph.contains x
  /-- The counts. -/
  count : ∀ h e, H.graph.get? h = some e → e.count.value = if h = x then n else 0

/-- Two operand occurrences of a node that had no references. -/
theorem SoleCount.add (hx : H.SoleCount x 0) :
    (H.andThen (.arithmetic .add [x, x])).SoleCount x 2 ∧
      (H.andThen (.arithmetic .add [x, x])).graph.inDegree x = H.graph.inDegree x + 2 := by
  have hlive : ∀ y ∈ (Node.arithmetic .add [x, x]).children, H.graph.contains y := by
    intro y hy
    obtain rfl : y = x := by simpa [Node.children] using hy
    exact hx.live
  have hgraph := graph_andThen_of_live (c := .arithmetic .add [x, x]) rfl hlive
  have htwo : (Node.arithmetic .add [x, x]).children.count x = 2 := by simp [Node.children]
  refine ⟨⟨?_, ?_⟩, ?_⟩
  · rw [hgraph]
    exact Graph.contains_built hlive hx.live
  · intro h e he
    rw [hgraph, Graph.get?_built hlive] at he
    by_cases hh : h = (H.graph.add (.arithmetic .add [x, x])).1
    · -- the sum is new, so it is not the node
      rw [if_pos hh] at he
      cases he
      have hne : h ≠ x := by
        rintro rfl
        exact Graph.add_fst_not_mem_children hlive (hh ▸ List.mem_cons_self)
      rw [if_neg hne]
      rfl
    · rw [if_neg hh] at he
      obtain ⟨e₀, he₀, rfl⟩ := Option.map_eq_some_iff.1 he
      rw [Count.value_plus, hx.count h e₀ he₀]
      by_cases hhx : h = x
      · subst hhx
        rw [if_pos rfl, if_pos rfl, htwo]
        rfl
      · simp [hhx, Node.children, Ne.symm hhx]
  · rw [hgraph, Graph.inDegree_built, htwo]

/-- A reference is taken from a node that has one. -/
theorem SoleCount.decrement (hx : H.SoleCount x (n + 1)) :
    (H.andThen (.decrement x)).SoleCount x n ∧
      (H.andThen (.decrement x)).graph.inDegree x = H.graph.inDegree x := by
  obtain ⟨e₀, he₀⟩ := Graph.contains_iff.1 hx.live
  have hvalue : e₀.count.value = n + 1 := (hx.count x e₀ he₀).trans (if_pos rfl)
  obtain ⟨count, hcount⟩ : ∃ count, e₀.count.decrement? = some count :=
    Option.ne_none_iff_exists'.1 (mt Count.decrement?_eq_none_iff.1 (by omega))
  have hone := Count.value_of_decrement? hcount
  have hgraph : (H.andThen (.decrement x)).graph = H.graph.lowerTo x count := by
    rw [graph_andThen, Graph.perform]
    simp only [Graph.decrement, he₀, hcount]
    rfl
  have hnode := H.graph.node?_lowerTo x count
  rw [hgraph]
  refine ⟨⟨?_, ?_⟩, Graph.inDegree_congr (fun p => Graph.childrenOf_congr (hnode p)) x⟩
  · rw [hgraph, Graph.contains_congr (hnode x)]
    exact hx.live
  · intro h e he
    rw [hgraph, Graph.get?_lowerTo] at he
    by_cases hh : h = x
    · rw [if_pos hh, he₀] at he
      cases he
      rw [if_pos hh]
      show count.value = n
      omega
    · rw [if_neg hh] at he
      rw [hx.count h e he, if_neg hh, if_neg hh]

/-- With few references to one node and none to the others, there is room to count. -/
theorem SoleCount.lt_max (hx : H.SoleCount x n) (hn : n < Count.max) :
    ∀ p ∈ H.graph.entries, p.2.count.value < Count.max := by
  intro p hp
  rw [hx.count p.1 p.2 (Graph.mem_entries.1 hp)]
  split
  · exact hn
  · exact Nat.zero_lt_of_lt hn

/-- A reference that is taken away is none that is added. -/
theorem raised_decrement : (H.andThen (.decrement l)).raised h = H.raised h := by
  rw [raised_andThen]
  rfl

/-- A variable is added to itself `n` times, and each time both references to it are taken away. -/
def stripped : ℕ → History
  | 0 => ⟨⟨1⟩, .standard, [.varUse "x"]⟩
  | n + 1 => (((stripped n).andThen (.arithmetic .add [.ofSlot 1 0, .ofSlot 1 0])).andThen
      (.decrement (.ofSlot 1 0))).andThen (.decrement (.ofSlot 1 0))

/-- After each round no node has references left, and the variable has two edges more. -/
theorem stripped_state (n : ℕ) : (stripped n).SoleCount (.ofSlot 1 0) 0 ∧
    (stripped n).graph.inDegree (.ofSlot 1 0) = 2 * n ∧ (stripped n).NeverSaturated ∧
    (stripped n).settings.policy = .report ∧ (stripped n).raised (.ofSlot 1 0) = 0 ∧
    (stripped n).underflows (.ofSlot 1 0) = 0 := by
  induction n with
  | zero =>
      refine ⟨⟨by decide, ?_⟩, by decide, by decide, rfl, by decide, by decide⟩
      have hall : ∀ p ∈ (stripped 0).graph.entries, p.2.count.value =
          if p.1 = .ofSlot 1 0 then 0 else 0 := by decide
      exact fun h e he => hall (h, e) (Graph.mem_entries.2 he)
  | succ n ih =>
      obtain ⟨hzero, hedges, hsat, hpolicy, hraised, hunder⟩ := ih
      obtain ⟨htwo, hadd⟩ := hzero.add
      obtain ⟨hone, hfirst⟩ := htwo.decrement
      obtain ⟨hnone, hsecond⟩ := hone.decrement
      refine ⟨hnone, ?_, ?_, hpolicy, ?_, ?_⟩
      · rw [stripped, hsecond, hfirst, hadd, hedges]
        omega
      · exact ((hsat.andThen (htwo.lt_max (by decide))).andThen (hone.lt_max (by decide))).andThen
          (hnone.lt_max (by decide))
      · rw [stripped, raised_decrement, raised_decrement, raised_of_not_counts rfl, hraised]
      · rw [stripped, underflows_of_not_release (by simp), underflows_of_not_release (by simp),
          underflows_of_not_release (by simp), hunder]

/-- **What an audit overlooks.** However many references are taken from the variable, no stored
count comes to the largest one; but the audit misses it whenever its edges are a multiple of
`2 ^ 32`. -/
theorem audit_stripped (n : ℕ) : (stripped n).settings.policy = .report ∧
    (stripped n).NeverSaturated ∧
    (stripped n).lowered (.ofSlot 1 0) = (stripped n).raised (.ofSlot 1 0) +
      (stripped n).underflows (.ofSlot 1 0) + 2 * n ∧
    ((stripped n).graph.audit.filter (Fault.isMismatchAt (.ofSlot 1 0)) = [] ↔ 2 ^ 31 ∣ n) := by
  obtain ⟨hzero, hedges, hsat, hpolicy, hraised, hunder⟩ := stripped_state n
  obtain ⟨e, he⟩ := Graph.contains_iff.1 hzero.live
  have heven := (stripped n).even hpolicy hsat _ e he
  have hvalue : e.count.value = 0 := (hzero.count _ e he).trans (if_pos rfl)
  have hlowered : (stripped n).lowered (.ofSlot 1 0) = 2 * n := by omega
  refine ⟨hpolicy, hsat, by omega, ?_⟩
  have hiff : 2 * n ≡ 0 + 0 [MOD 2 ^ 32] ↔ 2 ^ 31 ∣ n := by
    unfold Nat.ModEq
    omega
  rw [audit_modEq hpolicy hsat he, hlowered, hraised, hunder, ← hiff]
  simp only [ite_eq_left_iff, List.cons_ne_nil, imp_false, not_not]

end History

end SharedExpr
