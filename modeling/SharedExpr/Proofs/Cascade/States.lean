import SharedExpr.Proofs.Cascade.Accounts

/-!
# The states of a cascade

A cascade runs through states, one for each step. What is true *during* a cascade is true of all of
them, and the rounds of its loop are those among them in which a node is taken off the stack.

* `Cascade.states` — the states from one to the last; `Cascade.moves_of_mem_states` — moves lead to
  each of them, and `Cascade.exists_states_eq_concat` — **the last one is where the run ends**.
* `Cascade.taken?` — the node that the next step takes off the stack.
* `Cascade.Accounts.report_eq` — **at each state the report lists what was taken before it**, one
  node for each round, since no node is taken that is not live.
-/

namespace SharedExpr.Cascade

variable {g : Graph} {r h : Handle} {c d : Cascade} {before after : List Cascade}

/-! ### From one state to the last -/

/-- The states that a cascade runs through, from this one to the one in which it ends. -/
def states (c : Cascade) : List Cascade :=
  match _h : c.step with
  | .running next => c :: next.states
  | _ => [c]
termination_by (c.graph.size, c.work)
decreasing_by
  rcases step_decreases _h with hlt | ⟨heq, hlt⟩
  · exact Prod.Lex.left _ _ hlt
  · rw [heq]
    exact Prod.Lex.right _ hlt

/-- After a step the cascade runs through the states of what is left of it. -/
theorem states_of_running (h : c.step = .running d) : c.states = c :: d.states := by
  rw [states, h]

/-- A cascade without a next step is in its last state. -/
theorem states_of_not_running (h : ∀ d, c.step ≠ .running d) : c.states = [c] := by
  rw [states]
  split
  · rename_i d hd
    exact absurd hd (h d)
  · rfl

/-- Moves lead from the first state to each of them. -/
theorem moves_of_mem_states (hd : d ∈ c.states) : Moves c d := by
  induction c using states.induct with
  | case1 c next h ih =>
      rw [states_of_running h] at hd
      rcases List.mem_cons.1 hd with rfl | hd
      · exact .refl
      · exact .head (move_of_step h) (ih hd)
  | case2 c h =>
      rw [states_of_not_running h] at hd
      rw [List.mem_singleton.1 hd]
      exact .refl

/-- Where no step goes on a run ends. -/
theorem ends_of_not_running (h : ∀ d, c.step ≠ .running d) : Ends c c.run := by
  cases hstep : c.step with
  | finished report g =>
      obtain rfl := of_step_eq_finished hstep
      rw [run, hstep]
      exact .finished rfl rfl
  | aborted fault g =>
      obtain ⟨hp, parent, child, edges, he, hf, rfl⟩ := of_step_eq_aborted hstep
      rw [run, hstep]
      exact .aborted hp he hf
  | running d => exact absurd hstep (h d)

/-- **The last state is where the run ends.** -/
theorem exists_states_eq_concat (c : Cascade) :
    ∃ before d, c.states = before ++ [d] ∧ Ends d c.run := by
  induction c using states.induct with
  | case1 c next h ih =>
      obtain ⟨before, d, hstates, hend⟩ := ih
      refine ⟨c :: before, d, ?_, ?_⟩
      · rw [states_of_running h, hstates, List.cons_append]
      · rw [run, h]
        exact hend
  | case2 c h => exact ⟨[], c, states_of_not_running h, ends_of_not_running h⟩

/-! ### What is taken off the stack -/

/-- The node that the next step takes off the stack, if it takes one. -/
def taken? (c : Cascade) : Option Handle :=
  match c.edges with
  | [] => c.pending.head?
  | _ :: _ => none

/-- What is taken off the stack was waiting. -/
theorem mem_pending_of_taken? (hh : c.taken? = some h) : h ∈ c.pending := by
  unfold taken? at hh
  split at hh
  · exact List.mem_of_mem_head? hh
  · cases hh

/-- Where a run ends nothing is taken. -/
theorem Ends.taken?_eq {result : Outcome (Array Handle) × Graph} (hend : Ends c result) :
    c.taken? = none := by
  cases hend with
  | finished he hp => rw [taken?, he, hp]; rfl
  | aborted _ he _ => rw [taken?, he]

namespace Accounts

/-- A move adds to the report what it takes off the stack, since no node is skipped. -/
theorem report_of_move (hc : Accounts g r c) (hm : Move c d) :
    d.report.toList = c.report.toList ++ c.taken?.toList := by
  cases hm with
  | lower he hcount => exact (List.append_nil _).symm
  | defect hf hp => exact (List.append_nil _).symm
  | reclaim he => exact Array.toList_push
  | skip he => exact absurd he hc.not_skip

/-- **At each state the report lists what was taken off the stack before it.** -/
theorem report_eq (hr : ∀ e, g.get? r = some e → e.count.value = 0) (hc : Accounts g r c)
    (hstates : c.states = before ++ d :: after) :
    d.report.toList = c.report.toList ++ before.filterMap taken? := by
  induction c using states.induct generalizing before with
  | case1 c next h ih =>
      rw [states_of_running h] at hstates
      rcases List.cons_eq_append_iff.1 hstates with ⟨rfl, heq⟩ | ⟨rest, rfl, hrest⟩
      · obtain ⟨rfl, -⟩ := List.cons.inj heq
        exact (List.append_nil _).symm
      · have hmove := move_of_step h
        rw [ih (hc.move hr hmove) hrest, hc.report_of_move hmove, List.append_assoc]
        congr 1
        cases htaken : c.taken? with
        | none => rw [List.filterMap_cons_none htaken]; rfl
        | some h => rw [List.filterMap_cons_some htaken]; rfl
  | case2 c h =>
      rw [states_of_not_running h] at hstates
      rcases List.cons_eq_append_iff.1 hstates with ⟨rfl, heq⟩ | ⟨rest, rfl, hrest⟩
      · obtain ⟨rfl, -⟩ := List.cons.inj heq
        exact (List.append_nil _).symm
      · simp at hrest

end Accounts

end SharedExpr.Cascade
