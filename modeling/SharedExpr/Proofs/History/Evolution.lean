import SharedExpr.Proofs.History.Basic
import SharedExpr.Proofs.Release.Basic

/-!
# What every history keeps

Every command is an evolution of the graph (`Graph.perform_evolves`), so the graph at the end of a
history has the identity and the policy with which it was opened, and its nodes are ordered
(`History.ordered`): **no history makes a cycle**.
-/

namespace SharedExpr

namespace Graph

variable {g : Graph} {h : Handle}

/-- A reference more is a change of an entry. -/
theorem raise_evolves (g : Graph) (h : Handle) : g.Evolves (g.raise h) := by
  unfold raise
  split
  · rename_i e _
    exact .single (.modify h (fun x => { x with count := e.count.increment }) (fun _ => rfl)
      (g.id_raiseTo h _) (g.policy_raiseTo h _) rfl)
  · exact .refl

/-- References that are added are changes of entries. -/
theorem foldl_raise_evolves (hs : List Handle) (g : Graph) : g.Evolves (hs.foldl raise g) := by
  induction hs generalizing g with
  | nil => exact .refl
  | cons h hs ih => exact (g.raise_evolves h).trans (ih (g.raise h))

/-- A construction adds one node and then changes entries. -/
theorem build_evolves (g : Graph) (node : Node) : g.Evolves (g.build node).2 := by
  have hb := g.build_built node
  generalize g.build node = result at hb
  cases hb with
  | refused hm hdead => exact .refl
  | done hlive =>
      exact .head (.add node hlive (g.id_add node) (g.policy_add node) rfl)
        (foldl_raise_evolves node.children _)

/-- Giving up a root is a change of an entry. -/
theorem unroot_evolves (g : Graph) (h : Handle) : g.Evolves (g.unroot h) :=
  .single (.modify h (fun e => { e with rooted := false }) (fun _ => rfl) (g.id_setRooted h false)
    (g.policy_setRooted h false) rfl)

/-- A release changes and removes entries. -/
theorem release_evolves (g : Graph) (r : Root) : g.Evolves (g.release r).2 := by
  have hrel := g.release_released r
  generalize g.release r = result at hrel
  cases hrel with
  | refused hr => exact .refl
  | unrooted he hroot hpos => exact (g.unroot_evolves r.node).tail (.same rfl rfl rfl)
  | reclaimed he hroot hzero hm hedges hpending =>
      exact ((g.unroot_evolves r.node).trans (evolves_of_moves hm)).tail (.same rfl rfl rfl)
  | @aborted e c parent child edges fault he hroot hzero hm hpolicy hedges hf =>
      exact ((g.unroot_evolves r.node).trans (evolves_of_moves hm)).tail
        (.same (c.graph.id_note child fault)
        (c.graph.policy_note child fault) (c.graph.store_note child fault))

/-- What a command does to a graph is made up of changes. -/
theorem perform_evolves (g : Graph) (c : Command) : g.Evolves (g.perform c).2 := by
  induction c using Command.byKind with
  | build c node hc =>
      rw [perform_of_node? hc]
      exact g.build_evolves node
  | increment h =>
      show g.Evolves (g.increment h).2
      rcases g.increment_cases h with ⟨fault, hinc⟩ | ⟨-, n, hinc⟩
      · rw [hinc]
        exact .refl
      · rw [hinc]
        exact g.raise_evolves h
  | decrement h =>
      show g.Evolves (g.decrement h).2
      rcases g.decrement_cases h with ⟨e, count, -, -, hdec⟩ | ⟨-, hstore, hid, hpolicy⟩
      · rw [hdec]
        exact .single (.modify h (fun e => { e with count := count }) (fun _ => rfl)
          (g.id_lowerTo h count) (g.policy_lowerTo h count) rfl)
      · exact .single (.same hid hpolicy hstore)
  | root h =>
      show g.Evolves (g.root h).2
      unfold root
      split
      · exact .refl
      · split
        · exact .refl
        · exact .single (.modify h (fun e => { e with rooted := true }) (fun _ => rfl)
            (g.id_setRooted h true) (g.policy_setRooted h true) rfl)
  | release r => exact g.release_evolves r
  | takeDefects => exact .single (.same rfl rfl rfl)

end Graph

namespace History

variable {H : History}

/-- A graph keeps the identity with which it was opened. -/
theorem id_graph (H : History) : H.graph.id = H.id := by
  induction H using History.induction with
  | opened id settings => rfl
  | andThen H c ih =>
      rw [graph_andThen, (H.graph.perform_evolves c).id, ih]
      rfl

/-- A graph keeps the policy with which it was opened. -/
theorem policy_graph (H : History) : H.graph.policy = H.settings.policy := by
  induction H using History.induction with
  | opened id settings => rfl
  | andThen H c ih =>
      rw [graph_andThen, (H.graph.perform_evolves c).policy, ih]
      rfl

/-- A graph that was just opened has no edges. -/
theorem edges_opened (id : GraphId) (settings : Settings) :
    (⟨id, settings, []⟩ : History).graph.edges = [] := by
  simp [graph, Graph.performAll, Graph.edges, Graph.entries, Graph.ofSettings, Store.entries,
    Store.empty]

/-- No history makes a cycle. -/
theorem ordered (H : History) : H.graph.Ordered := by
  induction H using History.induction with
  | opened id settings =>
      refine ⟨?_, fun _ => 0, ?_⟩
      · intro p c hpc
        simp [edges_opened] at hpc
      · intro p c hpc
        simp [edges_opened] at hpc
  | andThen H c ih =>
      rw [graph_andThen]
      exact (H.graph.perform_evolves c).ordered ih

/-- The graph after a release that reclaims is what its cascade leaves, step by step. -/
theorem graph_andThen_release {r : Root} {e : Entry} {n : ℕ} {report : Array Handle} {G : Graph}
    (he : H.graph.get? r.node = some e) (hroot : e.rooted = true) (hzero : e.count.value = 0)
    (hrun : (Cascade.start (H.graph.unroot r.node) r.node).runWithin n =
      some (.done report, G)) :
    (H.andThen (.release r)).graph =
      G.write .debug (Graph.releaseRecord r.node report.size G.size) := by
  rw [graph_andThen, Graph.perform, Graph.release_of_runWithin he hroot hzero hrun]
  rfl

/-- If something can only be done to a live node, a node to which it was done was issued. -/
theorem issued_of_mem_transcript {h : Handle} {P : Command × Outcome Reply → Prop}
    (hP : ∀ (g : Graph) c, P (c, (g.perform c).1) → g.contains h)
    (hdone : ∃ step ∈ H.transcript, P step) : H.graph.Issued h := by
  induction H using History.induction with
  | opened id settings => simp [transcript] at hdone
  | andThen H c ih =>
      rw [graph_andThen]
      apply (H.graph.perform_evolves c).issued
      obtain ⟨step, hmem, hstep⟩ := hdone
      rw [transcript_andThen, List.mem_append, List.mem_singleton] at hmem
      rcases hmem with hold | rfl
      · exact ih ⟨step, hold, hstep⟩
      · exact Graph.issued_of_contains (hP H.graph c hstep)

end History

end SharedExpr
