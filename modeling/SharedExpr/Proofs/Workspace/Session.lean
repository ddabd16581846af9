import SharedExpr.Proofs.History.Basic
import SharedExpr.Workspace

/-!
# Sessions

A session is a run over several graphs: graphs are opened, and commands are carried out in one or
another of them. Each graph has a history of its own, which is what the session did to it, and the
graphs share nothing else than the numbers from which they get their identities.

* `Action`, `Session` — what can be done in a workspace, and a number of such actions.
* `Session.workspace`, `Session.turns` — where a session has got to, and the commands on the way
  with their outcomes; `Session.past` — all points on the way.
* `Session.histories` — the histories of the graphs, by position.
* `Session.workspace_eq` — **the graphs of a session are the graphs of its histories**, so what
  holds in every history holds in every graph of every session.
* `Session.id_of_getElem?`, `Session.eq_of_id_eq` — no two graphs have the same identity.
* `Session.exists_mem_past` — a history only grows while a session goes on.
-/

namespace SharedExpr

/-- What is done in a workspace. -/
inductive Action where
  /-- Open a graph. -/
  | addGraph (settings : Settings)
  /-- Carry out a command in the graph at a position. -/
  | perform (position : ℕ) (command : Command)

/-- A command that was carried out in a graph, with its outcome. -/
structure Turn where
  /-- The position of the graph. -/
  position : ℕ
  /-- The command with its outcome. -/
  step : Command × Outcome Reply

namespace Workspace

/-- What an action comes to, and the workspace after it. Nothing comes of a command to a graph that
does not exist. -/
def act (w : Workspace) : Action → Option Turn × Workspace
  | .addGraph settings => (none, w.addGraph settings)
  | .perform position c =>
    match w.perform position c with
    | some (outcome, w') => (some ⟨position, c, outcome⟩, w')
    | none => (none, w)

variable {w : Workspace} {g : Graph} {i : ℕ} {c : Command}

/-- A command is carried out on the graph at its position, and leaves its result there. -/
theorem act_perform_of_some (hg : w.graphs[i]? = some g) :
    w.act (.perform i c) = (some ⟨i, c, (g.perform c).1⟩,
      { w with graphs := w.graphs.setIfInBounds i (g.perform c).2 }) := by
  have hperform : w.perform i c = some ((g.perform c).1,
      { w with graphs := w.graphs.setIfInBounds i (g.perform c).2 }) :=
    apply_eq_some_iff.2 ⟨g, hg, rfl, rfl⟩
  simp only [act, hperform]

/-- A command for a graph that is not there does nothing. -/
theorem act_perform_of_none (hg : w.graphs[i]? = none) : w.act (.perform i c) = (none, w) := by
  have hperform : w.perform i c = none := by
    apply Option.eq_none_iff_forall_ne_some.2
    rintro ⟨outcome, w'⟩ hsome
    obtain ⟨g, hg', -, -⟩ := apply_eq_some_iff.1 hsome
    rw [hg] at hg'
    cases hg'
  simp only [act, hperform]

end Workspace

/-- The number of the first graph, and what was done since. -/
structure Session where
  /-- The number of the graph that is opened first. -/
  first : ℕ
  /-- What was done, in order. -/
  actions : List Action

namespace Session

variable {S T : Session} {H K : History} {a : Action} {i j : ℕ}

/-- The session with one more action. -/
def andThen (S : Session) (a : Action) : Session :=
  { S with actions := S.actions ++ [a] }

/-- Every point of the run. -/
def past (S : Session) : List Session :=
  S.actions.inits.map fun actions => { S with actions := actions }

/-- Sessions grow by one action at a time. -/
@[elab_as_elim]
theorem induction {P : Session → Prop} (opened : ∀ first, P ⟨first, []⟩)
    (andThen : ∀ S a, P S → P (S.andThen a)) (S : Session) : P S := by
  obtain ⟨first, actions⟩ := S
  induction actions using List.reverseRecOn with
  | nil => exact opened first
  | append_singleton actions a ih => exact andThen ⟨first, actions⟩ a ih

/-- The points of a longer session are those of the session before, and its end. -/
theorem past_andThen (S : Session) (a : Action) :
    (S.andThen a).past = S.past ++ [S.andThen a] := by
  simp [past, andThen, List.inits_append]

/-- The commands carried out and the workspace, after an action, given those before it. -/
def advance (run : List Turn × Workspace) (a : Action) : List Turn × Workspace :=
  (run.1 ++ (run.2.act a).1.toList, (run.2.act a).2)

/-- The commands that were carried out, and the workspace at the end. -/
def run (S : Session) : List Turn × Workspace :=
  S.actions.foldl advance ([], .startingAt S.first)

/-- The commands that were carried out, in order, with their outcomes. -/
def turns (S : Session) : List Turn :=
  S.run.1

/-- The workspace at the end. -/
def workspace (S : Session) : Workspace :=
  S.run.2

/-- The last action is carried out on what the others left. -/
theorem run_andThen : (S.andThen a).run = advance S.run a := by
  rw [run, andThen, List.foldl_append]
  rfl

/-- The last action makes one turn at most, which comes last. -/
theorem turns_andThen : (S.andThen a).turns = S.turns ++ (S.workspace.act a).1.toList := by
  rw [turns, run_andThen]
  rfl

/-- The last action is carried out on the workspace that the others left. -/
theorem workspace_andThen : (S.andThen a).workspace = (S.workspace.act a).2 := by
  rw [workspace, run_andThen]
  rfl

/-! ### The histories of the graphs -/

/-- The histories after an action. A graph that is opened has the number after those of the graphs
opened before. -/
def historiesAfter (first : ℕ) (histories : List History) : Action → List History
  | .addGraph settings => histories ++ [⟨⟨first + histories.length⟩, settings, []⟩]
  | .perform position c => histories.modify position fun H => H.andThen c

/-- The histories of the graphs, by position. -/
def histories (S : Session) : List History :=
  S.actions.foldl (historiesAfter S.first) []

/-- The last action prolongs a history, opens one or leaves them all as they are. -/
theorem histories_andThen :
    (S.andThen a).histories = historiesAfter S.first S.histories a := by
  rw [histories, andThen, List.foldl_append]
  rfl

/-- **The graphs of a session are the graphs of its histories.** -/
theorem workspace_eq (S : Session) : S.workspace =
    ⟨S.first + S.histories.length, (S.histories.map History.graph).toArray⟩ := by
  induction S using Session.induction with
  | opened first => rfl
  | andThen S a ih =>
      rw [workspace_andThen, histories_andThen]
      cases a with
      | addGraph settings =>
          show S.workspace.addGraph settings = _
          rw [ih]
          simp [Workspace.addGraph, historiesAfter, History.graph, Graph.performAll, andThen,
            Nat.add_assoc]
      | perform i c =>
          rcases hH : S.histories[i]? with _ | H
          · rw [Workspace.act_perform_of_none (by simp [ih, hH]), historiesAfter,
              List.modify_eq_self (List.getElem?_eq_none_iff.1 hH)]
            exact ih
          · rw [Workspace.act_perform_of_some (g := H.graph) (by simp [ih, hH]), historiesAfter, ih]
            simp [List.modify_eq_set_getElem?, hH, History.graph_andThen, andThen]

/-- The graphs of a workspace are those at the ends of their histories. -/
theorem getElem?_graphs (S : Session) (i : ℕ) :
    S.workspace.graphs[i]? = S.histories[i]?.map History.graph := by
  rw [workspace_eq]
  simp

/-! ### What one action does -/

/-- What can come of an action: a graph is opened, or the history of one graph grows by a command,
or there was no such graph. -/
inductive Advances (S T : Session) : Prop
  /-- A graph is opened. -/
  | opened (settings : Settings) (hturns : T.turns = S.turns)
      (hhistories : T.histories = S.histories ++ [⟨⟨S.first + S.histories.length⟩, settings, []⟩])
  /-- A command is carried out. -/
  | performed {i : ℕ} {H : History} {c : Command} (hH : S.histories[i]? = some H)
      (hturns : T.turns = S.turns ++ [⟨i, c, (H.graph.perform c).1⟩])
      (hhistories : T.histories = S.histories.set i (H.andThen c))
  /-- Nothing happens. -/
  | idle (hturns : T.turns = S.turns) (hhistories : T.histories = S.histories)

/-- One more action is an advance. -/
theorem andThen_advances (S : Session) (a : Action) : S.Advances (S.andThen a) := by
  cases a with
  | addGraph settings =>
      refine .opened settings ?_ histories_andThen
      rw [turns_andThen]
      exact List.append_nil _
  | perform i c =>
      have hgraph := S.getElem?_graphs i
      rcases hH : S.histories[i]? with _ | H
      · rw [hH] at hgraph
        apply Advances.idle
        · rw [turns_andThen, Workspace.act_perform_of_none hgraph]
          exact List.append_nil _
        · rw [histories_andThen, historiesAfter,
            List.modify_eq_self (List.getElem?_eq_none_iff.1 hH)]
      · rw [hH] at hgraph
        apply Advances.performed (c := c) hH
        · rw [turns_andThen, Workspace.act_perform_of_some hgraph]
          rfl
        · rw [histories_andThen, historiesAfter, List.modify_eq_set_getElem?, hH]
          rfl

/-- A history is at the next point of the session what it was, or it has grown by a command. -/
theorem Advances.exists_getElem? (hST : S.Advances T) (hK : S.histories[i]? = some K) :
    T.histories[i]? = some K ∨ ∃ c, T.histories[i]? = some (K.andThen c) := by
  have hi : i < S.histories.length := (List.getElem?_eq_some_iff.1 hK).1
  cases hST with
  | opened settings hturns hhistories =>
      rw [hhistories, List.getElem?_append_left hi]
      exact Or.inl hK
  | @performed j H c hH hturns hhistories =>
      rw [hhistories]
      by_cases hij : j = i
      · subst hij
        obtain rfl := Option.some_inj.1 (hK.symm.trans hH)
        exact Or.inr ⟨c, List.getElem?_set_self hi⟩
      · rw [List.getElem?_set_ne hij]
        exact Or.inl hK
  | idle hturns hhistories =>
      rw [hhistories]
      exact Or.inl hK

/-- Each graph has a number of its own. -/
theorem id_of_getElem? (hH : S.histories[i]? = some H) : H.id = ⟨S.first + i⟩ := by
  induction S using Session.induction generalizing i H with
  | opened first => cases hH
  | andThen S a ih =>
      show H.id = ⟨S.first + i⟩
      cases S.andThen_advances a with
      | opened settings hturns hhistories =>
          rw [hhistories, List.getElem?_append] at hH
          split at hH
          · exact ih hH
          · obtain ⟨hi, rfl⟩ := List.getElem?_eq_some_iff.1 hH
            rw [List.length_singleton] at hi
            obtain rfl : i = S.histories.length := by omega
            simp
      | @performed j K c hK hturns hhistories =>
          rw [hhistories, List.getElem?_set] at hH
          split at hH
          · rename_i hij
            subst hij
            split at hH
            · obtain rfl := Option.some_inj.1 hH
              exact ih (H := K) hK
            · cases hH
          · exact ih hH
      | idle hturns hhistories =>
          rw [hhistories] at hH
          exact ih hH

/-- Graphs of the same identity are the same graph. -/
theorem eq_of_id_eq (hH : S.histories[i]? = some H) (hK : S.histories[j]? = some K)
    (hid : H.id = K.id) : i = j ∧ H = K := by
  rw [id_of_getElem? hH, id_of_getElem? hK, GraphId.mk.injEq] at hid
  obtain rfl : i = j := by omega
  exact ⟨rfl, Option.some_inj.1 (hH.symm.trans hK)⟩

/-- A history at an earlier point of the session is an earlier point of the history. -/
theorem exists_mem_past (hT : T ∈ S.past) (hK : T.histories[i]? = some K) :
    ∃ H, S.histories[i]? = some H ∧ K ∈ H.past := by
  induction S using Session.induction with
  | opened first =>
      obtain rfl : T = ⟨first, []⟩ := List.mem_singleton.1 hT
      cases hK
  | andThen S a ih =>
      rw [past_andThen, List.mem_append, List.mem_singleton] at hT
      rcases hT with hT | rfl
      · obtain ⟨H, hH, hpast⟩ := ih hT
        rcases (S.andThen_advances a).exists_getElem? hH with hsame | ⟨c, hgrown⟩
        · exact ⟨H, hsame, hpast⟩
        · exact ⟨H.andThen c, hgrown, History.past_trans hpast History.mem_past_andThen⟩
      · exact ⟨K, hK, K.self_mem_past⟩

end Session

end SharedExpr
