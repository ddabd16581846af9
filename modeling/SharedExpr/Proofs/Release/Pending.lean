import SharedExpr.Proofs.Cascade.States
import SharedExpr.Proofs.History.Strict

/-!
# What waits during a release

A node is put on the stack when its count falls to zero, and from then on nobody can take a
reference from it: so it is put there once, and it is still live, without references and without a
root when its turn comes. That holds whatever the counts say, right or wrong, and also of a release
that is abandoned on the way.

* `Graph.releaseStates` — the states of the cascade of a release; `Graph.taken` — the nodes that the
  rounds of its loop take off the stack, one for each round.
* `Cascade.Waiting` — what is true of the stack; `Cascade.Accounts.waiting` — it follows from the
  account of a cascade.
* `Graph.release_takes_live` — **no round takes a node that is not live, and what is reported is
  what the rounds took**. These nodes were live and are not any more, and all others stay as live as
  they were.
-/

namespace SharedExpr

namespace Cascade

variable {g : Graph} {r h : Handle} {c : Cascade}

/-- What is true of the nodes that wait to be reclaimed. -/
structure Waiting (c : Cascade) : Prop where
  /-- None waits twice. -/
  nodup : c.pending.Nodup
  /-- None was reclaimed already. -/
  not_mem_report : ∀ h ∈ c.pending, h ∉ c.report
  /-- Each is live, is not rooted and has no references. -/
  entry : ∀ h ∈ c.pending, ∃ e, c.graph.get? h = some e ∧ e.rooted = false ∧ e.count.value = 0

namespace Accounts

/-- Only nodes without a root wait: the released one has lost it, and the others had none. -/
theorem rooted_pending (hroot : ∀ e, g.get? r = some e → e.rooted = false)
    (hc : Accounts g r c) {e : Entry} (hh : h ∈ c.pending) (he : c.graph.get? h = some e) :
    e.rooted = false := by
  obtain ⟨-, e₀, he₀, rfl⟩ := hc.entry he
  rcases hc.exhausted h (Or.inr hh) with rfl | ⟨e₁, he₁, hfree, -⟩
  · exact hroot e₀ he₀
  · obtain rfl : e₁ = e₀ := Option.some_inj.1 (he₁.symm.trans he₀)
    exact hfree

/-- The accounts of a cascade imply that what waits is live, without a root and without
references. -/
theorem waiting (hzero : ∀ e, g.get? r = some e → e.count.value = 0)
    (hroot : ∀ e, g.get? r = some e → e.rooted = false) (hc : Accounts g r c) : c.Waiting where
  nodup := (List.nodup_append.1 hc.nodup).2.1
  not_mem_report _ hh := hc.not_mem_report hh
  entry h hh := by
    obtain ⟨e, he⟩ := hc.get?_pending hh
    exact ⟨e, he, hc.rooted_pending hroot hh he, hc.count_pending hzero hh he⟩

/-- What is live during a cascade is what was live and was not reclaimed. -/
theorem contains_iff (hc : Accounts g r c) (h : Handle) :
    c.graph.contains h ↔ g.contains h ∧ h ∉ c.report := by
  rw [Graph.contains, hc.get? h, Graph.contains]
  by_cases hh : h ∈ c.report <;> simp [hh]

end Accounts

end Cascade

namespace Graph

variable {g : Graph} {r : Root} {c : Cascade} {before after : List Cascade} {report : Array Handle}

/-! ### The cascade of a release -/

/-- The states of the cascade of a release. There are none if the root is refused or references keep
the node. -/
def releaseStates (g : Graph) (r : Root) : List Cascade :=
  if g.isRooted? r.node = some true ∧ g.count? r.node = some 0 then
    (Cascade.start (g.unroot r.node) r.node).states
  else []

/-- The nodes that the rounds of the loop of a release take off the stack, one for each round. -/
def taken (g : Graph) (r : Root) : List Handle :=
  (g.releaseStates r).filterMap Cascade.taken?

/-- A node that has lost its root is not rooted. -/
theorem rooted_unroot (e : Entry) (he : (g.unroot r.node).get? r.node = some e) :
    e.rooted = false := by
  rw [get?_unroot, if_pos rfl] at he
  obtain ⟨e₀, -, rfl⟩ := Option.map_eq_some_iff.1 he
  rfl

/-- A release that has states is that of a rooted node without references. -/
theorem exists_entry_of_releaseStates (hstates : g.releaseStates r = before ++ c :: after) :
    ∃ e, g.get? r.node = some e ∧ e.count.value = 0 ∧
      g.releaseStates r = (Cascade.start (g.unroot r.node) r.node).states := by
  unfold releaseStates at hstates ⊢
  split
  · rename_i hgoes
    obtain ⟨e, he, hzero⟩ := Option.map_eq_some_iff.1 hgoes.2
    exact ⟨e, he, hzero, rfl⟩
  · rename_i hstays
    rw [if_neg hstays] at hstates
    simp at hstates

/-- Each state has an account of what was done, and its report lists what was taken before. -/
theorem accounts_of_releaseStates (hstates : g.releaseStates r = before ++ c :: after) :
    Cascade.Accounts (g.unroot r.node) r.node c ∧ c.Waiting ∧
      c.report.toList = before.filterMap Cascade.taken? := by
  obtain ⟨e, he, hzero, heq⟩ := exists_entry_of_releaseStates hstates
  rw [heq] at hstates
  have hcount := count_unroot_of_zero he hzero
  have hmem : c ∈ (Cascade.start (g.unroot r.node) r.node).states :=
    hstates ▸ List.mem_append_right _ List.mem_cons_self
  have hc := accounts_of_moves (Cascade.moves_of_mem_states hmem) he hzero
  refine ⟨hc, hc.waiting hcount rooted_unroot, ?_⟩
  rw [(Cascade.accounts_start (contains_unroot he)).report_eq hcount hstates]
  rfl

/-- How a release ends: it has no states and nothing is reclaimed, or the last one is what it
leaves. -/
theorem release_states (g : Graph) (r : Root) :
    (g.releaseStates r = [] ∧ (∀ report, (g.release r).1 = .done report → report = #[]) ∧
      ∀ h, (g.release r).2.contains h = g.contains h) ∨
    ∃ before c, g.releaseStates r = before ++ [c] ∧ c.taken? = none ∧
      (∀ report, (g.release r).1 = .done report → report = c.report) ∧
      ∀ h, (g.release r).2.contains h = c.graph.contains h := by
  by_cases hgoes : g.isRooted? r.node = some true ∧ g.count? r.node = some 0
  · right
    obtain ⟨e, he, hroot⟩ := Option.map_eq_some_iff.1 hgoes.1
    have hzero : e.count.value = 0 := by simpa [count?, he] using hgoes.2
    obtain ⟨before, c, hstates, hend⟩ :=
      (Cascade.start (g.unroot r.node) r.node).exists_states_eq_concat
    have hrel : g.release r = (g.unroot r.node).reclaimFrom r.node := by
      rw [release, he]
      simp only [hroot, Count.isZero_iff.2 hzero, ↓reduceIte]
      rfl
    refine ⟨before, c, by rw [releaseStates, if_pos hgoes, hstates], hend.taken?_eq, ?_⟩
    rw [hrel, reclaimFrom]
    generalize (Cascade.start (g.unroot r.node) r.node).run = result at hend
    cases hend with
    | finished hedges hpending =>
        refine ⟨?_, fun h => rfl⟩
        intro report hreport
        cases hreport
        rfl
    | @aborted parent child edges fault hpolicy hedges hf =>
        refine ⟨by simp, fun h => ?_⟩
        show (c.graph.note child fault).contains h = c.graph.contains h
        rw [contains, get?_note, contains]
  · left
    refine ⟨if_neg hgoes, ?_⟩
    have hrel := g.release_released r
    generalize g.release r = result at hrel
    cases hrel with
    | refused hr => exact ⟨by simp, fun h => rfl⟩
    | unrooted he hroot hpos =>
        refine ⟨?_, fun h => contains_congr (g.node?_setRooted r.node h false)⟩
        intro report hreport
        cases hreport
        rfl
    | reclaimed he hroot hzero | aborted he hroot hzero =>
        exact absurd ⟨by simp [isRooted?, he, hroot], by simp [count?, he, hzero]⟩ hgoes

/-- What the rounds took is what the last state reports. -/
theorem taken_eq (hstates : g.releaseStates r = before ++ [c]) (hlast : c.taken? = none) :
    g.taken r = c.report.toList := by
  rw [(accounts_of_releaseStates hstates).2.2, taken, hstates, List.filterMap_append,
    List.filterMap_cons_none hlast, List.filterMap_nil, List.append_nil]

/-- **No round of a release takes a node that is not live**, whatever the counts say. In each state
of its cascade no node waits twice, and those that wait are live, not rooted and without references,
and were not reclaimed before; so the node that is taken next is live, and the report lists just the
nodes that were taken, one for each round. At the end these are the nodes that were live and are not
any more, each once, also if the release was abandoned. All others stay as they were. -/
theorem release_takes_live (g : Graph) (r : Root) :
    (∀ before c after, g.releaseStates r = before ++ c :: after →
      c.Waiting ∧ (∀ h, c.taken? = some h → c.graph.contains h) ∧
      c.report.toList = before.filterMap Cascade.taken?) ∧
    (∀ report, (g.release r).1 = .done report → report.toList = g.taken r) ∧
    (g.taken r).Nodup ∧
    (∀ h ∈ g.taken r, g.contains h ∧ ¬ (g.release r).2.contains h) ∧
    ∀ h ∉ g.taken r, (g.release r).2.contains h = g.contains h := by
  refine ⟨?during, ?ended⟩
  case during =>
    intro before c after hstates
    obtain ⟨-, hwaiting, hreport⟩ := accounts_of_releaseStates hstates
    refine ⟨hwaiting, fun h hh => ?_, hreport⟩
    obtain ⟨e, he, -⟩ := hwaiting.entry h (Cascade.mem_pending_of_taken? hh)
    exact contains_iff.2 ⟨e, he⟩
  case ended =>
    rcases g.release_states r with ⟨hnone, hdone, hsame⟩ | ⟨before, c, hstates, hlast, hdone, hleft⟩
    · have htaken : g.taken r = [] := by rw [taken, hnone, List.filterMap_nil]
      rw [htaken]
      refine ⟨fun report hreport => ?_, .nil, by simp, fun h _ => hsame h⟩
      rw [hdone report hreport]
    · have hc := (accounts_of_releaseStates hstates).1
      have hunroot : ∀ h, (g.unroot r.node).contains h = g.contains h := fun h =>
        contains_congr (g.node?_setRooted r.node h false)
      rw [taken_eq hstates hlast]
      refine ⟨fun report hreport => by rw [hdone report hreport], ?_, ?_, ?_⟩
      · exact (List.nodup_append.1 hc.nodup).1
      · intro h hh
        rw [hleft, hc.contains_iff, ← hunroot]
        have hmem := Array.mem_toList_iff.1 hh
        exact ⟨hc.live h (.inl hmem), fun hlive => hlive.2 hmem⟩
      · intro h hh
        rw [hleft, ← hunroot, Bool.eq_iff_iff, hc.contains_iff]
        exact and_iff_left fun hmem => hh (Array.mem_toList_iff.2 hmem)

/-- A number waits that is named twice and has one reference: the second edge finds it with none,
and its turn comes only then. -/
theorem shortchanged_taken :
    History.shortchanged.graph.taken ⟨.ofSlot 1 1⟩ = [.ofSlot 1 1, .ofSlot 1 0] ∧
      History.shortchanged.graph.contains (.ofSlot 1 0) ∧
      ¬ (History.shortchanged.graph.release ⟨.ofSlot 1 1⟩).2.contains (.ofSlot 1 0) := by
  have hrun : ((Cascade.start (History.shortchanged.graph.unroot (.ofSlot 1 1))
      (.ofSlot 1 1)).runWithin 7).map Prod.fst =
        some (.done #[.ofSlot 1 1, .ofSlot 1 0]) := by decide
  obtain ⟨⟨outcome, G⟩, hG, rfl⟩ := Option.map_eq_some_iff.1 hrun
  have hsum : History.shortchanged.graph.get? (.ofSlot 1 1) =
      some ⟨.arithmetic .add [.ofSlot 1 0, .ofSlot 1 0], .zero, true⟩ := by decide
  obtain ⟨-, hdone, -, hgone, -⟩ := release_takes_live History.shortchanged.graph ⟨.ofSlot 1 1⟩
  have htaken := hdone _ (congrArg Prod.fst
    (release_of_runWithin (r := ⟨.ofSlot 1 1⟩) hsum rfl rfl hG))
  exact ⟨htaken.symm, hgone _ (by simp [← htaken])⟩

end Graph

end SharedExpr
