import SharedExpr.Proofs.History.Roots
import SharedExpr.Proofs.Workspace.Handles

/-!
# Roots are good for one release

A graph gives a root to whoever asks first, and takes it back once. Whoever has a root may pass it
to any graph, also to one that did not give it out; then it is used up, and the graph that gave it
out never gets it back. Here roots are followed through a whole session, in which counts may be
corrupted and releases abandoned.

* `Session.inHand` — the roots that were given out and not passed to a release since, of whichever
  graph; `Session.Linear` — only such roots are passed to releases, so each is passed at most once.
* `Session.outstanding` — the roots that one graph gave out and did not get back; these are the
  roots that its history holds (`Session.outstanding_eq_held`).
* `Session.andThen_release_of_foreign` — a root that is passed to another graph is used up, and no
  graph changes.
* `Session.Linear.mem_outstanding` — a root that is out of hand and was not returned is outstanding
  for ever.
* `Session.roots_valid` — **the roots outstanding are the nodes marked, and each of them is good for
  a release**, which takes the mark of no other node.
-/

namespace SharedExpr

/-! ### Roots that are given out and passed on -/

/-- The root that is passed to a release. -/
def Command.released? : Command → Option Root
  | .release r => some r
  | _ => none

/-- The root that is passed to a release, of whichever graph. -/
def Action.released? : Action → Option Root
  | .perform _ c => c.released?
  | .addGraph _ => none

namespace History

variable {H : History} {c : Command} {held : List Root} {r s : Root}
  {step : Command × Outcome Reply}

/-- The root that a command gave out. -/
def given? : Command × Outcome Reply → Option Root
  | (.root _, .done (.root r)) => some r
  | _ => none

/-- A command that gives out a root takes none back. -/
theorem released?_of_given? (hs : given? step = some s) : step.1.released? = none := by
  unfold given? at hs
  split at hs
  · rfl
  · cases hs

/-- A root that is given out is held. -/
theorem heldAfter_of_given? (hs : given? step = some s) : heldAfter held step = s :: held := by
  unfold given? at hs
  split at hs
  · cases hs
    rfl
  · cases hs

/-- A command that gives out no root takes back the one that it releases, if it releases one. -/
theorem heldAfter_of_not_given? (hs : given? step = none) :
    heldAfter held step = step.1.released?.elim held held.erase := by
  unfold heldAfter
  split
  · cases hs
  · rfl
  · rename_i hnot
    obtain ⟨c, outcome⟩ := step
    cases c with
    | release s => exact absurd rfl (hnot s outcome)
    | _ => rfl

/-- A root is held after a command if the command gave it out or did not take it back. -/
theorem mem_heldAfter (hn : held.Nodup) : r ∈ heldAfter held step ↔
    given? step = some r ∨ r ∈ held ∧ step.1.released? ≠ some r := by
  rcases hg : given? step with _ | s
  · rw [heldAfter_of_not_given? hg]
    rcases step.1.released? with _ | s
    · simp
    · simp [hn.mem_erase_iff, and_comm, eq_comm]
  · rw [heldAfter_of_given? hg, List.mem_cons, released?_of_given? hg]
    simp [eq_comm]

/-- A root is given out for a live node that has none. -/
theorem of_given? {g : Graph} (hr : given? (c, (g.perform c).1) = some r) :
    g.contains r.node ∧ g.isRooted? r.node ≠ some true := by
  cases c with
  | root l =>
      rcases g.root_cases l with ⟨fault, hroot⟩ | ⟨hlive, hno, hroot⟩
      · rw [Graph.perform, hroot] at hr
        cases hr
      · rw [Graph.perform, hroot] at hr
        cases hr
        exact ⟨hlive, hno⟩
  | _ => simp [given?] at hr

/-- A root that is given out was not held. -/
theorem not_mem_held_of_given? (hr : given? (c, (H.graph.perform c).1) = some r) : r ∉ H.held :=
  fun hmem => (of_given? hr).2 (mem_held_iff.1 hmem)

/-- Only nodes of the graph's own are held. -/
theorem graph_of_mem_held (hr : r ∈ H.held) : r.node.graph = H.id := by
  obtain ⟨e, he, -⟩ := Option.map_eq_some_iff.1 (mem_held_iff.1 hr)
  exact graph_of_mem_issued (mem_issued_of_contains (Graph.contains_iff.2 ⟨e, he⟩))

end History

namespace Session

variable {S T : Session} {H K : History} {a : Action} {c : Command} {i j : ℕ} {r : Root}
  {g : Graph}

/-! ### The roots of one graph -/

/-- The commands that were carried out in the graph at a position, with their outcomes. -/
def transcriptAt (S : Session) (i : ℕ) : List (Command × Outcome Reply) :=
  (S.turns.filter fun turn => turn.position = i).map Turn.step

/-- The roots that the graph at a position gave out and that were not passed to its release
since. -/
def outstanding (S : Session) (i : ℕ) : List Root :=
  (S.transcriptAt i).foldl History.heldAfter []

/-- A turn is written down for the graph at its position. -/
theorem transcriptAt_of_turns_eq {turn : Turn} (hturns : T.turns = S.turns ++ [turn]) :
    T.transcriptAt i = S.transcriptAt i ++ if turn.position = i then [turn.step] else [] := by
  rw [transcriptAt, hturns, List.filter_append, List.map_append]
  by_cases hi : turn.position = i <;> simp [transcriptAt, hi]

/-- What was carried out in a graph is what its history tells. -/
theorem transcriptAt_eq (S : Session) (i : ℕ) :
    S.transcriptAt i = S.histories[i]?.elim [] History.transcript := by
  induction S using Session.induction with
  | opened first => rfl
  | andThen S a ih =>
      cases S.andThen_advances a with
      | opened settings hturns hhistories =>
          rw [transcriptAt, hturns, hhistories]
          apply ih.trans
          by_cases hi : i < S.histories.length
          · rw [List.getElem?_append_left hi]
          · -- nothing was carried out in the graph that was just opened
            rw [List.getElem?_eq_none (Nat.not_lt.1 hi),
              List.getElem?_append_right (Nat.not_lt.1 hi), List.getElem?_singleton]
            split <;> rfl
      | @performed j H c hH hturns hhistories =>
          have hj : j < S.histories.length := (List.getElem?_eq_some_iff.1 hH).1
          rw [transcriptAt_of_turns_eq hturns, hhistories, ih]
          by_cases hij : j = i
          · subst hij
            rw [if_pos rfl, hH, List.getElem?_set_self hj, Option.elim_some, Option.elim_some,
              History.transcript_andThen]
          · rw [if_neg hij, List.append_nil, List.getElem?_set_ne hij]
      | idle hturns hhistories =>
          rw [transcriptAt, hturns, hhistories]
          exact ih

/-- The outstanding roots of a graph are those that its history holds. -/
theorem outstanding_eq_held (hH : S.histories[i]? = some H) : S.outstanding i = H.held := by
  rw [outstanding, transcriptAt_eq, hH]
  rfl

/-- What is outstanding is outstanding for a graph. -/
theorem exists_history_of_mem_outstanding (hr : r ∈ S.outstanding i) :
    ∃ H, S.histories[i]? = some H ∧ r ∈ H.held := by
  rcases hH : S.histories[i]? with _ | H
  · rw [outstanding, transcriptAt_eq, hH] at hr
    cases hr
  · exact ⟨H, rfl, outstanding_eq_held hH ▸ hr⟩

/-- No root is outstanding twice. -/
theorem nodup_outstanding (S : Session) (i : ℕ) : (S.outstanding i).Nodup := by
  rcases hH : S.histories[i]? with _ | H
  · rw [outstanding, transcriptAt_eq, hH]
    exact List.nodup_nil
  · rw [outstanding_eq_held hH]
    exact H.nodup_held

/-- A root is outstanding after a turn if the turn was in its graph and gave it out, or if it was
outstanding before and was not passed to its graph. -/
theorem mem_outstanding_of_turns_eq {turn : Turn} (hturns : T.turns = S.turns ++ [turn]) :
    r ∈ T.outstanding i ↔ turn.position = i ∧ History.given? turn.step = some r ∨
      r ∈ S.outstanding i ∧ ¬ (turn.position = i ∧ turn.step.1.released? = some r) := by
  rw [outstanding, transcriptAt_of_turns_eq hturns, List.foldl_append]
  by_cases hi : turn.position = i
  · rw [if_pos hi]
    apply (History.mem_heldAfter (S.nodup_outstanding i)).trans
    simp [hi]
  · rw [if_neg hi]
    simp [hi, outstanding]

/-- Without a turn the outstanding roots stay the same. -/
theorem outstanding_of_turns_eq_self (hturns : T.turns = S.turns) (i : ℕ) :
    T.outstanding i = S.outstanding i := by
  rw [outstanding, outstanding, transcriptAt, transcriptAt, hturns]

/-- A root is given out by one graph, for which it was not outstanding. -/
theorem not_mem_outstanding_of_given? (hH : S.histories[i]? = some H)
    (hgiven : History.given? (c, (H.graph.perform c).1) = some r) : r ∉ S.outstanding j := by
  intro hr
  obtain ⟨K, hK, hheld⟩ := exists_history_of_mem_outstanding hr
  have hissued := History.mem_issued_of_contains (History.of_given? hgiven).1
  have hid : H.id = K.id :=
    (History.graph_of_mem_issued hissued).symm.trans (History.graph_of_mem_held hheld)
  obtain ⟨-, rfl⟩ := eq_of_id_eq hH hK hid
  exact History.not_mem_held_of_given? hgiven hheld

/-! ### The roots of a user -/

/-- The roots that were given out and not passed to a release since, of whichever graph. -/
def inHand (S : Session) : List Root :=
  (S.turns.map Turn.step).foldl History.heldAfter []

/-- The points of the run, but for its end, each with the action that came next. -/
def steps (S : Session) : List (Session × Action) :=
  S.past.zip S.actions

/-- The last step leads from the session before to its action. -/
theorem steps_andThen (S : Session) (a : Action) :
    (S.andThen a).steps = S.steps ++ [(S, a)] := by
  simp only [steps, past, andThen, List.zip_map_left, zip_inits_concat, List.map_append]
  rfl

/-- Only roots that are in hand are passed to releases. -/
def Linear (S : Session) : Prop :=
  ∀ step ∈ S.steps, ∀ r ∈ step.2.released?, r ∈ step.1.inHand

/-- It can be decided whether roots are used linearly. -/
instance : Decidable S.Linear :=
  inferInstanceAs (Decidable (∀ step ∈ S.steps, ∀ r ∈ step.2.released?, r ∈ step.1.inHand))

/-- Roots are used linearly up to the last action, and it releases only what is in hand. -/
theorem linear_andThen :
    (S.andThen a).Linear ↔ S.Linear ∧ ∀ r ∈ a.released?, r ∈ S.inHand := by
  simp only [Linear, steps_andThen, List.forall_mem_append, List.forall_mem_singleton]

/-- A turn changes what is in hand as it changes what a history holds. -/
theorem inHand_of_turns_eq {turn : Turn} (hturns : T.turns = S.turns ++ [turn]) :
    T.inHand = History.heldAfter S.inHand turn.step := by
  rw [inHand, hturns, List.map_append, List.foldl_append]
  rfl

/-- Without a turn there is the same in hand. -/
theorem inHand_of_turns_eq_self (hturns : T.turns = S.turns) : T.inHand = S.inHand := by
  rw [inHand, inHand, hturns]

/-- An action is no turn, or a turn in the graph that it is for. -/
theorem turns_andThen_cases (S : Session) (a : Action) : (S.andThen a).turns = S.turns ∨
    ∃ j c H, a = .perform j c ∧ S.histories[j]? = some H ∧
      (S.andThen a).turns = S.turns ++ [⟨j, c, (H.graph.perform c).1⟩] := by
  rw [turns_andThen]
  cases a with
  | addGraph settings => exact Or.inl (List.append_nil _)
  | perform j c =>
      have hgraph := S.getElem?_graphs j
      rcases hH : S.histories[j]? with _ | H
      · rw [hH] at hgraph
        rw [Workspace.act_perform_of_none hgraph]
        exact Or.inl (List.append_nil _)
      · rw [hH] at hgraph
        rw [Workspace.act_perform_of_some hgraph]
        exact Or.inr ⟨j, c, H, rfl, hH, rfl⟩

/-- Nothing is in hand twice, and what is in hand is outstanding for a graph. -/
theorem inHand_outstanding (S : Session) :
    S.inHand.Nodup ∧ ∀ r ∈ S.inHand, ∃ i, r ∈ S.outstanding i := by
  induction S using Session.induction with
  | opened first =>
      refine ⟨List.nodup_nil, ?_⟩
      intro r hr
      cases hr
  | andThen S a ih =>
      rcases S.turns_andThen_cases a with hturns | ⟨j, c, H, -, hH, hturns⟩
      · simpa only [inHand_of_turns_eq_self hturns, outstanding_of_turns_eq_self hturns] using ih
      · obtain ⟨hnodup, hout⟩ := ih
        rw [inHand_of_turns_eq hturns]
        constructor
        · rcases hg : History.given? (c, (H.graph.perform c).1) with _ | s
          · rw [History.heldAfter_of_not_given? hg]
            cases c.released? with
            | none => exact hnodup
            | some s => exact hnodup.erase s
          · rw [History.heldAfter_of_given? hg, List.nodup_cons]
            refine ⟨?_, hnodup⟩
            intro hs
            obtain ⟨i, hmem⟩ := hout s hs
            exact not_mem_outstanding_of_given? hH hg hmem
        · intro r hr
          rcases (History.mem_heldAfter hnodup).1 hr with hgiven | ⟨hold, hkept⟩
          · exact ⟨j, (mem_outstanding_of_turns_eq hturns).2 (Or.inl ⟨rfl, hgiven⟩)⟩
          · obtain ⟨i, hmem⟩ := hout r hold
            refine ⟨i, (mem_outstanding_of_turns_eq hturns).2 (Or.inr ⟨hmem, ?_⟩)⟩
            exact fun hpassed => hkept hpassed.2

/-- A root that is out of hand and was not returned is outstanding for ever. -/
theorem Linear.mem_outstanding (hS : S.Linear) (hT : T ∈ S.past) (hr : r ∈ T.outstanding i)
    (hgone : r ∉ T.inHand) : r ∈ S.outstanding i ∧ r ∉ S.inHand := by
  induction S using Session.induction with
  | opened first =>
      obtain rfl : T = ⟨first, []⟩ := List.mem_singleton.1 hT
      exact ⟨hr, hgone⟩
  | andThen S a ih =>
      rw [past_andThen, List.mem_append, List.mem_singleton] at hT
      rcases hT with hT | rfl
      · obtain ⟨hS, ha⟩ := linear_andThen.1 hS
        obtain ⟨hout, hlost⟩ := ih hS hT
        rcases S.turns_andThen_cases a with hturns | ⟨j, c, H, rfl, hH, hturns⟩
        · rw [outstanding_of_turns_eq_self hturns, inHand_of_turns_eq_self hturns]
          exact ⟨hout, hlost⟩
        · constructor
          · -- only what is in hand can be returned
            refine (mem_outstanding_of_turns_eq hturns).2 (Or.inr ⟨hout, ?_⟩)
            exact fun hpassed => hlost (ha r hpassed.2)
          · -- only what is not outstanding is given out
            rw [inHand_of_turns_eq hturns, History.mem_heldAfter S.inHand_outstanding.1]
            rintro (hgiven | ⟨hold, -⟩)
            · exact not_mem_outstanding_of_given? hH hgiven hout
            · exact hlost hold
      · exact ⟨hr, hgone⟩

/-! ### Releases -/

/-- A root is refused by every graph that did not give it out. -/
theorem release_of_foreign (hr : r ∈ S.outstanding i) (hij : i ≠ j)
    (hg : S.workspace.graphs[j]? = some g) :
    g.release r = (.refused (.unknownNode r.node), g) := by
  obtain ⟨H, hH, hheld⟩ := exists_history_of_mem_outstanding hr
  obtain ⟨K, hK, rfl⟩ := exists_history hg
  apply Graph.release_of_not_rooted
  intro hroot
  have hid : H.id = K.id := (History.graph_of_mem_held hheld).symm.trans
    (History.graph_of_mem_held (History.mem_held_iff.2 hroot))
  exact hij (eq_of_id_eq hH hK hid).1

/-- A root that is passed to another graph is used up, stays outstanding and changes no graph. -/
theorem andThen_release_of_foreign (hr : r ∈ S.outstanding i) (hij : i ≠ j)
    (hg : S.workspace.graphs[j]? = some g) :
    (S.andThen (.perform j (.release r))).workspace = S.workspace ∧
      r ∈ (S.andThen (.perform j (.release r))).outstanding i ∧
      r ∉ (S.andThen (.perform j (.release r))).inHand := by
  have hrefused := release_of_foreign hr hij hg
  have hact : S.workspace.act (.perform j (.release r)) =
      (some ⟨j, .release r, .refused (.unknownNode r.node)⟩, S.workspace) := by
    have hsame : S.workspace.graphs.setIfInBounds j g = S.workspace.graphs := by
      apply Array.ext_getElem?
      intro k
      rw [Array.getElem?_setIfInBounds]
      split
      · rename_i hjk
        subst hjk
        rw [hg, if_pos (Array.getElem?_eq_some_iff.1 hg).1]
      · rfl
    rw [Workspace.act_perform_of_some hg, Graph.perform, hrefused]
    exact Prod.ext rfl (congrArg (Workspace.mk S.workspace.next) hsame)
  have hturns : (S.andThen (.perform j (.release r))).turns =
      S.turns ++ [⟨j, .release r, .refused (.unknownNode r.node)⟩] := by
    rw [turns_andThen, hact]
    rfl
  refine ⟨by rw [workspace_andThen, hact], ?_, ?_⟩
  · exact (mem_outstanding_of_turns_eq hturns).2 (Or.inr ⟨hr, fun hpassed => hij hpassed.1.symm⟩)
  · rw [inHand_of_turns_eq hturns, History.mem_heldAfter S.inHand_outstanding.1]
    rintro (hgiven | ⟨-, hkept⟩)
    · cases hgiven
    · exact hkept rfl

end Session

namespace Graph

variable {g : Graph} {h : Handle} {r : Root}

/-- A root of a marked node is good for a release: there is a report, unless the policy abandons the
release at a defect. -/
theorem exists_report_or_aborted (hr : g.isRooted? r.node = some true) :
    (∃ report, (g.release r).1 = .done report) ∨
      g.policy = .abort ∧ ∃ fault, (g.release r).1 = .aborted fault := by
  have hrel := g.release_released r
  generalize g.release r = result at hrel
  cases hrel with
  | refused hno => exact absurd hr hno
  | unrooted he hroot hpos => exact Or.inl ⟨_, rfl⟩
  | reclaimed he hroot hzero hm hedges hpending => exact Or.inl ⟨_, rfl⟩
  | aborted he hroot hzero hm hpolicy hedges hf => exact Or.inr ⟨hpolicy, _, rfl⟩

/-- The roots listed are the nodes that are marked. -/
theorem mem_roots : h ∈ g.roots ↔ g.isRooted? h = some true := by
  simp only [roots, List.mem_filterMap, Prod.exists, mem_entries, isRooted?, Option.map_eq_some_iff]
  constructor
  · rintro ⟨l, e, he, hl⟩
    split at hl
    · rename_i hroot
      cases hl
      exact ⟨e, he, hroot⟩
    · cases hl
  · rintro ⟨e, he, hroot⟩
    exact ⟨h, e, he, by rw [if_pos hroot]⟩

/-- No node is listed twice. -/
theorem nodup_roots (g : Graph) : g.roots.Nodup := by
  have hn := g.nodup_entries
  rw [List.nodup_iff_pairwise_ne, List.pairwise_map] at hn
  rw [roots, List.nodup_iff_pairwise_ne, List.pairwise_filterMap]
  apply hn.imp
  intro p q hpq h hp l hq
  split at hp
  · split at hq
    · cases hp
      cases hq
      exact hpq
    · cases hq
  · cases hp

end Graph

namespace Session

variable {S T : Session}

/-- **Roots stay valid.** Let only roots that are in hand be passed to releases, so that each root
is passed to at most one. Then the nodes that a graph lists as rooted, which are its live nodes with
a mark, are those of the roots that it gave out and did not get back, with one such root for each. A
root that is outstanding is not refused by its graph, and no release takes a node with a mark away
but for its own. A root that is passed to another graph is refused there and changes nothing, and is
outstanding from then on for ever. -/
theorem roots_valid (S : Session) (hS : S.Linear) :
    (∀ i g, S.workspace.graphs[i]? = some g →
      g.roots.Nodup ∧ (∀ h, h ∈ g.roots ↔ g.isRooted? h = some true) ∧
      g.roots.Perm ((S.outstanding i).map Root.node) ∧
      (∀ r ∈ S.outstanding i, (∃ report, (g.release r).1 = .done report) ∨
        g.policy = .abort ∧ ∃ fault, (g.release r).1 = .aborted fault) ∧
      ∀ r, ∀ h ∈ g.roots, h ≠ r.node → h ∈ (g.release r).2.roots) ∧
    (∀ i j r g, r ∈ S.outstanding i → i ≠ j → S.workspace.graphs[j]? = some g →
      g.release r = (.refused (.unknownNode r.node), g) ∧
      (S.andThen (.perform j (.release r))).workspace = S.workspace ∧
      r ∈ (S.andThen (.perform j (.release r))).outstanding i ∧
      r ∉ (S.andThen (.perform j (.release r))).inHand) ∧
    ∀ T ∈ S.past, ∀ i, ∀ r ∈ T.outstanding i, r ∉ T.inHand →
      r ∈ S.outstanding i ∧ r ∉ S.inHand := by
  refine ⟨?_, ?_, fun T hT i r hr => hS.mem_outstanding hT hr⟩
  · intro i g hg
    obtain ⟨H, hH, rfl⟩ := exists_history hg
    have hout := outstanding_eq_held hH
    refine ⟨H.graph.nodup_roots, fun h => Graph.mem_roots, ?_, ?_, ?_⟩
    · have hnodup : (H.held.map Root.node).Nodup :=
        H.nodup_held.map fun r s hrs => Root.ext_iff.2 hrs
      rw [hout, List.perm_ext_iff_of_nodup H.graph.nodup_roots hnodup]
      intro h
      rw [Graph.mem_roots, List.mem_map]
      constructor
      · intro hroot
        exact ⟨⟨h⟩, History.mem_held_iff.2 hroot, rfl⟩
      · rintro ⟨r, hr, rfl⟩
        exact History.mem_held_iff.1 hr
    · intro r hr
      exact Graph.exists_report_or_aborted (History.mem_held_iff.1 (hout ▸ hr))
    · intro r h hh hne
      rw [Graph.mem_roots] at hh ⊢
      exact (Graph.isRooted?_release _ r h).2 ⟨hh, hne⟩
  · intro i j r g hr hij hg
    exact ⟨release_of_foreign hr hij hg, andThen_release_of_foreign hr hij hg⟩

/-- A number that is rooted and added to itself, and from which both references were taken; the sum
is rooted too. The root of the number was passed to a graph that did not give it out. -/
def misplaced : Session where
  first := 1
  actions := [.addGraph .standard, .addGraph .standard, .perform 0 (.intLiteral 7),
    .perform 0 (.arithmetic .add [.ofSlot 1 0, .ofSlot 1 0]), .perform 0 (.root (.ofSlot 1 0)),
    .perform 0 (.root (.ofSlot 1 1)), .perform 0 (.decrement (.ofSlot 1 0)),
    .perform 0 (.decrement (.ofSlot 1 0)), .perform 1 (.varUse "x"),
    .perform 1 (.release ⟨.ofSlot 1 0⟩)]

/-- The root of the number is lost, so the number stays when the sum goes, whatever its count. -/
theorem misplaced_roots : misplaced.Linear ∧ ⟨.ofSlot 1 0⟩ ∉ misplaced.inHand ∧
    ∃ g, misplaced.workspace.graphs[0]? = some g ∧ g.count? (.ofSlot 1 0) = some 0 ∧
      .ofSlot 1 0 ∈ g.roots ∧ .ofSlot 1 0 ∈ (g.release ⟨.ofSlot 1 1⟩).2.roots := by
  have hlinear : misplaced.Linear := by decide
  have hgone : ⟨.ofSlot 1 0⟩ ∉ misplaced.inHand := by decide
  obtain ⟨g, hg, hcount⟩ : ∃ g, misplaced.workspace.graphs[0]? = some g ∧
      g.count? (.ofSlot 1 0) = some 0 := by
    have hzero : misplaced.workspace.graphs[0]?.bind (·.count? (.ofSlot 1 0)) = some 0 := by decide
    exact Option.bind_eq_some_iff.1 hzero
  obtain ⟨hgraphs, -, -⟩ := roots_valid misplaced hlinear
  obtain ⟨-, -, hperm, -, hkeep⟩ := hgraphs 0 g hg
  have hroot : .ofSlot 1 0 ∈ g.roots := by
    have hout : .ofSlot 1 0 ∈ (misplaced.outstanding 0).map Root.node := by decide
    exact hperm.mem_iff.2 hout
  exact ⟨hlinear, hgone, g, hg, hcount, hroot, hkeep ⟨.ofSlot 1 1⟩ _ hroot (by decide)⟩

end Session

end SharedExpr
