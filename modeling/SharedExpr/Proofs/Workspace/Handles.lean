import SharedExpr.Proofs.History.Issue
import SharedExpr.Proofs.Workspace.Session

/-!
# Handles are permanent

Graphs have their slots numbered alike, and each of them gives a slot that was vacated to the next
node. Still no two nodes ever share a handle, whichever graphs they are in and whatever became of
them.

* `Session.made`, `Session.issued` — the handles that were issued in a session, with their nodes and
  the positions of the graphs that issued them.
* `Session.mem_made_iff` — they are the handles that the histories of the graphs issued.
* `Session.handles_permanent` — **a handle names one node for ever**: handles are issued once, a
  live one names the node that it was issued for, one that is dead stays dead, and none is live in
  another graph.
-/

namespace SharedExpr.Session

variable {S T : Session} {H K : History} {i j : ℕ} {h : Handle} {n : Node} {m : Handle × Node}

/-- The handle that a command issued, with its node, and the position of the graph. -/
def made? (turn : Turn) : Option (ℕ × Handle × Node) :=
  (History.made? turn.step).map fun m => (turn.position, m)

/-- The handles that were issued, in order, with their nodes and the positions of their graphs. -/
def made (S : Session) : List (ℕ × Handle × Node) :=
  S.turns.filterMap made?

/-- The handles that were issued, in order. -/
def issued (S : Session) : List Handle :=
  S.made.map fun m => m.2.1

/-- The handle that the last turn issued comes last. -/
theorem made_of_turns_eq {turn : Turn} (hturns : T.turns = S.turns ++ [turn]) :
    T.made = S.made ++ (made? turn).toList := by
  rw [made, hturns, List.filterMap_append]
  cases hm : made? turn <;> simp [made, hm]

/-- What a session issued, the histories of its graphs issued. -/
theorem mem_made_iff : (i, m) ∈ S.made ↔ ∃ H, S.histories[i]? = some H ∧ m ∈ H.made := by
  induction S using Session.induction generalizing i m with
  | opened first =>
      constructor
      · intro hm
        cases hm
      · rintro ⟨H, hH, -⟩
        cases hH
  | andThen S a ih =>
      cases S.andThen_advances a with
      | opened settings hturns hhistories =>
          rw [made, hturns, hhistories]
          apply ih.trans
          simp only [List.getElem?_append]
          split
          · rfl
          · rename_i hi
            constructor
            · rintro ⟨H, hH, -⟩
              exact absurd (List.getElem?_eq_some_iff.1 hH).1 hi
            · -- the graph that was just opened has issued nothing
              rintro ⟨H, hH, hm⟩
              obtain rfl := List.mem_singleton.1 (List.mem_of_getElem? hH)
              cases hm
      | @performed j H c hH hturns hhistories =>
          have hj : j < S.histories.length := (List.getElem?_eq_some_iff.1 hH).1
          rw [made_of_turns_eq hturns, hhistories, List.mem_append, ih]
          by_cases hij : j = i
          · subst hij
            rw [List.getElem?_set_self hj, hH]
            simp [History.made_andThen, made?]
          · simp [List.getElem?_set_ne hij, made?, hij]
      | idle hturns hhistories =>
          rw [made, hturns, hhistories]
          exact ih

/-- Two graphs do not issue the same handle. -/
theorem eq_of_mem_issued (hH : S.histories[i]? = some H) (hK : S.histories[j]? = some K)
    (hh : h ∈ H.issued) (hh' : h ∈ K.issued) : i = j ∧ H = K :=
  eq_of_id_eq hH hK
    ((History.graph_of_mem_issued hh).symm.trans (History.graph_of_mem_issued hh'))

/-- A handle that a graph issues now was not issued before, by whichever graph. -/
theorem not_mem_issued_of_made? {c : Command} (hH : S.histories[i]? = some H)
    (hm : History.made? (c, (H.graph.perform c).1) = some m) : m.1 ∉ S.issued := by
  obtain ⟨hfresh, hnew⟩ := History.not_mem_issued_of_made? hm
  intro hold
  obtain ⟨⟨j, m'⟩, hm', heq⟩ := List.mem_map.1 hold
  obtain ⟨K, hK, hmK⟩ := mem_made_iff.1 hm'
  have hold : m.1 ∈ K.issued := List.mem_map.2 ⟨m', hmK, heq⟩
  have hid : H.id = K.id :=
    (History.graph_of_mem_issued hnew).symm.trans (History.graph_of_mem_issued hold)
  obtain ⟨rfl, rfl⟩ := eq_of_id_eq hH hK hid
  exact hfresh hold

/-- **No handle is issued twice**, by whichever graphs. -/
theorem nodup_issued (S : Session) : S.issued.Nodup := by
  induction S using Session.induction with
  | opened first => exact List.nodup_nil
  | andThen S a ih =>
      cases S.andThen_advances a with
      | opened settings hturns hhistories =>
          rw [issued, made, hturns]
          exact ih
      | @performed i H c hH hturns hhistories =>
          rw [issued, made_of_turns_eq hturns, List.map_append]
          apply ih.append
          · simp only [made?]
            cases History.made? (c, (H.graph.perform c).1) <;> simp
          · intro h hold hnew
            obtain ⟨⟨j, m⟩, hm, rfl⟩ := List.mem_map.1 hnew
            obtain ⟨m', hmade, heq⟩ := Option.map_eq_some_iff.1 (Option.mem_toList.1 hm)
            obtain ⟨-, rfl⟩ := Prod.mk.inj heq
            exact not_mem_issued_of_made? hH hmade hold
      | idle hturns hhistories =>
          rw [issued, made, hturns]
          exact ih

/-- The first nodes of two graphs are in slots of the same number, and have different handles. -/
example : (⟨1, [.addGraph .standard, .addGraph .standard, .perform 1 (.varUse "x"),
    .perform 0 (.varUse "x")]⟩ : Session).issued = [.ofSlot 2 0, .ofSlot 1 0] := by
  decide

/-- The graphs of a session are those of its histories. -/
theorem exists_history {g : Graph} (hg : S.workspace.graphs[i]? = some g) :
    ∃ H, S.histories[i]? = some H ∧ H.graph = g := by
  rw [getElem?_graphs] at hg
  exact Option.map_eq_some_iff.1 hg

/-- A handle names its node in the graph that issues it from the action on with which it does. -/
theorem exists_node?_of_mem_made {a : Action} (hnew : (i, h, n) ∈ (S.andThen a).made)
    (hold : (i, h, n) ∉ S.made) :
    ∃ g, (S.andThen a).workspace.graphs[i]? = some g ∧ g.node? h = some n := by
  cases S.andThen_advances a with
  | opened settings hturns hhistories =>
      rw [made, hturns] at hnew
      exact absurd hnew hold
  | @performed j H c hH hturns hhistories =>
      have hj : j < S.histories.length := (List.getElem?_eq_some_iff.1 hH).1
      rw [made_of_turns_eq hturns, List.mem_append] at hnew
      obtain ⟨m, hmade, heq⟩ :=
        Option.map_eq_some_iff.1 (Option.mem_toList.1 (hnew.resolve_left hold))
      obtain ⟨rfl, rfl⟩ := Prod.mk.inj heq
      refine ⟨(H.andThen c).graph, ?_, History.node?_of_made? hmade⟩
      rw [getElem?_graphs, hhistories, List.getElem?_set_self hj]
      rfl
  | idle hturns hhistories =>
      rw [made, hturns] at hnew
      exact absurd hnew hold

/-- **A handle names one node for ever.** All handles that graphs issue in a session are different.
A handle names the node for which it was issued, in the graph that issued it, from then on and for
as long as it is live; in other graphs it is never live. And once it is dead in its graph, it stays
so for the rest of the session. All of this is said of slots whose generations do not wrap round
(`SharedExpr.Store.Basic`). -/
theorem handles_permanent (S : Session) :
    S.issued.Nodup ∧
    (∀ a i h n, (i, h, n) ∈ (S.andThen a).made → (i, h, n) ∉ S.made →
      ∃ g, (S.andThen a).workspace.graphs[i]? = some g ∧ g.node? h = some n) ∧
    (∀ i h n, (i, h, n) ∈ S.made → ∀ j g, S.workspace.graphs[j]? = some g → g.contains h →
      j = i ∧ g.node? h = some n) ∧
    ∀ T ∈ S.past, ∀ i h n, (i, h, n) ∈ T.made →
      ∀ g, T.workspace.graphs[i]? = some g → ¬ g.contains h →
        ∃ G, S.workspace.graphs[i]? = some G ∧ ¬ G.contains h := by
  refine ⟨S.nodup_issued, fun a i h n => exists_node?_of_mem_made, ?_, ?_⟩
  · intro i h n hm j g hg hlive
    obtain ⟨H, hH, hmade⟩ := mem_made_iff.1 hm
    obtain ⟨K, hK, rfl⟩ := exists_history hg
    obtain ⟨rfl, rfl⟩ := eq_of_mem_issued hK hH (History.mem_issued_of_contains hlive)
      (History.mem_issued_of_mem_made hmade)
    exact ⟨rfl, History.node?_of_mem_made hmade hlive⟩
  · intro T hT i h n hm g hg hdead
    obtain ⟨K, hK, hmade⟩ := mem_made_iff.1 hm
    obtain ⟨K', hK', rfl⟩ := exists_history hg
    obtain rfl := Option.some_inj.1 (hK.symm.trans hK')
    obtain ⟨H, hH, hpast⟩ := exists_mem_past hT hK
    refine ⟨H.graph, by rw [getElem?_graphs, hH]; rfl, ?_⟩
    have hissued := History.issued_of_mem_issued (History.mem_issued_of_mem_made hmade)
    exact History.not_contains_of_mem_past hpast hissued hdead

end SharedExpr.Session
