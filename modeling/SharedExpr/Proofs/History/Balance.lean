import SharedExpr.Proofs.History.Soundness

/-!
# Totals balance

The four totals of a graph are kept by hand, one by one, as things happen. In a history without
direct references they say what they are meant to say: what was added and has not gone is still
there.

* `Graph.Tallied` — no defect is recorded, nodes constructed and not released are live, references
  added and not taken away are edges.
* `Graph.Tallied.build`, `Graph.Tallied.release` — the two operations that move totals.
* `Graph.Balanced` — the totals, the counts and the order of nodes are as they should be. A release
  keeps this (`Graph.Balanced.release`).
* `History.balanced` — **so they are in every history without direct references**, as long as no
  count comes to its limit.
-/

namespace SharedExpr

namespace Graph

variable {g g' : Graph} {h : Handle} {r : Root} {node : Node}

/-! ### Totals -/

/-- The totals agree with what is in the graph, and no defect is recorded. -/
structure Tallied (g : Graph) : Prop where
  /-- No defect is recorded. -/
  defects : g.defects = #[]
  /-- What was constructed was released or is live. -/
  constructed : g.totals.constructed = g.totals.released + g.size
  /-- A reference that was added was taken away or is an edge. -/
  increments : g.totals.increments = g.totals.decrements + g.edges.length

/-- The number of edges is a matter of nodes. -/
theorem length_edges_congr (hn : ∀ p, g'.node? p = g.node? p) :
    g'.edges.length = g.edges.length :=
  (edges_perm fun p => .of_eq (childrenOf_congr (hn p))).length_eq

/-- Whether totals agree is a matter of defects, totals and nodes. -/
theorem Tallied.congr (hg : g.Tallied) (hdefects : g'.defects = g.defects)
    (htotals : g'.totals = g.totals) (hsize : g'.size = g.size)
    (hn : ∀ p, g'.node? p = g.node? p) : g'.Tallied where
  defects := hdefects.trans hg.defects
  constructed := by rw [htotals, hsize, hg.constructed]
  increments := by rw [htotals, length_edges_congr hn, hg.increments]

/-- A construction is one node more, and one reference more for each edge. -/
theorem Tallied.build (hg : g.Tallied) (node : Node) : (g.build node).2.Tallied := by
  have hb := g.build_built node
  generalize g.build node = result at hb
  cases hb with
  | refused hm hdead => exact hg
  | done hlive =>
      have hedges : (node.children.foldl raise (g.add node).2).edges.length =
          node.children.length + g.edges.length := by
        have hnew : (node.children.foldl raise (g.add node).2).get? (g.add node).1 =
            some ⟨node, .zero, false⟩ := by
          rw [get?_built hlive, if_pos rfl]
        rw [(edges_perm_append hnew fun l => ?_).length_eq, List.length_append, List.length_map]
        rw [childrenOf_built]
        split
        · rename_i hl
          rw [hl, childrenOf_of_get?_none (g.get?_add_fst node)]
        · rfl
      refine ⟨?_, ?_, ?_⟩
      · show (node.children.foldl raise (g.add node).2).defects = #[]
        rw [foldl_raise_eq Graph.defects defects_raise, defects_add, hg.defects]
      · show (node.children.foldl raise (g.add node).2).totals.constructed = _
        rw [foldl_raise_eq Graph.size size_raise, size_add, totals_built hlive]
        simp only [hg.constructed, Nat.add_assoc]
      · rw [hedges, totals_built hlive]
        simp only [hg.increments]
        omega

/-- A mark leaves totals in agreement. -/
theorem Tallied.setRooted (hg : g.Tallied) (h : Handle) (rooted : Bool) :
    (g.setRooted h rooted).Tallied :=
  hg.congr (g.defects_setRooted h rooted) (g.totals_setRooted h rooted) (g.size_setRooted h rooted)
    fun p => g.node?_setRooted h p rooted

/-- A release takes away one reference for each edge that goes, and no edge is a defect. -/
theorem Tallied.release (hg : g.Tallied) (hsound : g.Sound fun _ => 0) (r : Root) :
    (g.release r).2.Tallied := by
  have hun : (g.unroot r.node).Tallied := hg.setRooted r.node false
  obtain ⟨-, hsame, habort⟩ := hsound.release r
  have hdefects := hsame.trans hg.defects
  have hrel := g.release_released r
  generalize g.release r = result at hrel hdefects habort
  cases hrel with
  | refused hr => exact hg
  | unrooted he hroot hpos => exact hun.congr rfl rfl rfl fun _ => rfl
  | @reclaimed e c he hroot hzero hm hedges hpending =>
      have hc := conserves_of_moves hm
      have hnone : c.graph.defects = #[] := hdefects
      have hreleased := hc.released
      have hdropped := hc.dropped
      rw [hnone, hun.defects, hedges] at hdropped
      have hcg : c.graph.Tallied := by
        refine ⟨hnone, ?_, ?_⟩
        · rw [hc.constructed, hun.constructed]
          omega
        · rw [hc.increments, hun.increments]
          simpa using hdropped.symm
      exact hcg.congr rfl rfl rfl fun _ => rfl
  | aborted he hroot hzero hm hpolicy hedges hf => exact absurd rfl (habort _)

/-! ### Balance -/

/-- Totals, counts and the order of nodes are as they should be. -/
structure Balanced (g : Graph) : Prop extends g.Tallied where
  /-- A count is the number of edges to its node. -/
  sound : g.Sound fun _ => 0
  /-- Nodes are ordered. -/
  ordered : g.Ordered

/-- A release leaves a balanced graph balanced. -/
theorem Balanced.release (hg : g.Balanced) (r : Root) : (g.release r).2.Balanced where
  toTallied := hg.toTallied.release hg.sound r
  sound := (hg.sound.release r).1
  ordered := (g.release_evolves r).ordered hg.ordered

end Graph

namespace History

variable {H : History} {c : Command}

/-- A command without direct references leaves totals in agreement. -/
theorem tallied_andThen (hg : H.graph.Tallied) (hsound : H.graph.Sound fun _ => 0)
    (hc : c.countsDirectly = false) : (H.andThen c).graph.Tallied := by
  rw [graph_andThen]
  induction c using Command.byKind with
  | build c node hnode =>
      rw [Graph.perform_of_node? hnode]
      exact hg.build node
  | increment l => cases hc
  | decrement l => cases hc
  | root l =>
      show (H.graph.root l).2.Tallied
      rcases H.graph.root_cases l with ⟨fault, hroot⟩ | ⟨-, -, hroot⟩
      · rw [hroot]
        exact hg
      · rw [hroot]
        exact (hg.setRooted l true).congr rfl rfl rfl fun _ => rfl
  | release r => exact hg.release hsound r
  | takeDefects => exact hg.congr hg.defects.symm rfl rfl fun _ => rfl

/-- **Without direct references a graph stays balanced**, if no count comes to its limit. -/
theorem balanced (H : History) (hdirect : ∀ c ∈ H.commands, c.countsDirectly = false)
    (hsat : H.NeverSaturated) : H.graph.Balanced := by
  have hsound : ∀ K ∈ H.past, K.graph.Sound fun _ => 0 := fun K hK =>
    sound_of_not_counts (not_counts_of_mem_past hdirect hK) fun L hL h e he =>
      Or.inl (hsat.lt (past_trans hL hK) he)
  refine ⟨?_, hsound H (self_mem_past H), H.ordered⟩
  clear hsat
  induction H using History.induction with
  | opened id settings =>
      refine ⟨rfl, rfl, ?_⟩
      rw [edges_opened]
      rfl
  | andThen H c ih =>
      have hc := hdirect c (List.mem_append_right _ (List.mem_singleton_self c))
      exact tallied_andThen
        (ih (fun d hd => hdirect d (List.mem_append_left _ hd)) (forall_past_of_andThen hsound))
        (hsound H mem_past_andThen) hc

end History

end SharedExpr
