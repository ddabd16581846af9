import SharedExpr.Proofs.History.Journal
import SharedExpr.Proofs.History.Refusal

/-!
# What a construction adds

A node that is built over live operands counts each operand as often as it occurs, one occurrence
after the other. The counts that are told while this goes on are running counts: what a message says
of an operand depends on how many of its occurrences came before.

* `Graph.countings` — the messages of a list of occurrences, each with the count of its node by
  then. They are what the graph sends (`Graph.sink_foldl_raise`), and with room to count no count is
  cut short (`Graph.countings_of_room`).
* `Graph.Gains` — what there is more in a graph to which a node was added, and what is as before.
* `Graph.perform_gains` — **a construction over live operands with room to count adds exactly
  this**, whatever the counts said before and whichever slot the node is put into.
-/

namespace SharedExpr

namespace Graph

variable {g G : Graph} {node : Node} {c : Command} {h : Handle} {hs : List Handle}

/-! ### Occurrences that are counted one by one -/

/-- The messages that tell of occurrences, each with what its node's count has come to. -/
def countings (g : Graph) (hs : List Handle) : List Message :=
  hs.mapIdx fun i x =>
    .referenced x (min ((g.count? x).getD 0 + (hs.take (i + 1)).count x) Count.max)

/-- What is told of occurrences depends on the counts of their nodes only. -/
theorem countings_congr (hcount : ∀ x ∈ hs, g.count? x = G.count? x) :
    g.countings hs = G.countings hs := by
  apply List.ext_getElem?
  intro i
  rw [countings, countings, List.getElem?_mapIdx, List.getElem?_mapIdx]
  rcases hi : hs[i]? with _ | x
  · rfl
  · rw [Option.map_some, Option.map_some, hcount x (List.mem_of_getElem? hi)]

/-- A reference more raises the count of its node, up to the largest count. -/
theorem count?_raise (g : Graph) (h x : Handle) : (g.raise h).count? x =
    if x = h then (g.count? h).map fun n => min (n + 1) Count.max else g.count? x := by
  rw [count?, get?_raise]
  split
  · rw [Option.map_map, count?, Option.map_map]
    congr 1
    funext e
    exact e.count.value_increment
  · rfl

/-- The first occurrence is counted, and the others on top of it. -/
theorem countings_cons {n : ℕ} (hn : g.count? h = some n) (hs : List Handle) :
    g.countings (h :: hs) =
      .referenced h (min (n + 1) Count.max) :: (g.raise h).countings hs := by
  have hfirst : min ((g.count? h).getD 0 + ((h :: hs).take 1).count h) Count.max =
      min (n + 1) Count.max := by
    rw [hn]
    simp
  have hlater : ∀ i x, min ((g.count? x).getD 0 + ((h :: hs).take (i + 2)).count x) Count.max =
      min (((g.raise h).count? x).getD 0 + (hs.take (i + 1)).count x) Count.max := by
    intro i x
    rw [count?_raise, List.take_succ_cons]
    by_cases hx : x = h
    · subst hx
      rw [if_pos rfl, hn, List.count_cons_self, Option.map_some, Option.getD_some, Option.getD_some]
      omega
    · rw [if_neg hx, List.count_cons_of_ne (Ne.symm hx)]
  rw [countings, List.mapIdx_cons, hfirst]
  simp only [hlater]
  rfl

/-- A reference more is told with what the count has come to. -/
theorem sink_raise {e : Entry} (he : g.get? h = some e) :
    (g.raise h).sink = g.sink.deliver (.referenced h (min (e.count.value + 1) Count.max)) := by
  rw [raise, he, ← e.count.value_increment]
  exact congrArg (Sink.deliver · _) (g.sink_modify h _)

/-- **Each occurrence is told of, with the count that it makes.** -/
theorem sink_foldl_raise (hlive : ∀ x ∈ hs, g.contains x) :
    (hs.foldl raise g).sink = (g.countings hs).foldl Sink.deliver g.sink := by
  induction hs generalizing g with
  | nil => rfl
  | cons h hs ih =>
      obtain ⟨hh, hlive⟩ := List.forall_mem_cons.1 hlive
      obtain ⟨e, he⟩ := contains_iff.1 hh
      have hlive' : ∀ x ∈ hs, (g.raise h).contains x := by
        intro x hx
        rw [contains_raise]
        exact hlive x hx
      have hcount : g.count? h = some e.count.value := by rw [count?, he, Option.map_some]
      rw [List.foldl_cons, ih hlive', countings_cons hcount, List.foldl_cons, sink_raise he]

/-- There is room to count occurrences. -/
def Room (g : Graph) (hs : List Handle) : Prop :=
  ∀ x ∈ hs, ∀ e, g.get? x = some e → e.count.value + hs.count x ≤ Count.max

/-- With room to count, the running counts are the numbers of occurrences so far. -/
theorem countings_of_room (hlive : ∀ x ∈ hs, g.contains x) (hroom : g.Room hs) :
    g.countings hs = hs.mapIdx fun i x =>
      .referenced x ((g.count? x).getD 0 + (hs.take (i + 1)).count x) := by
  apply List.ext_getElem?
  intro i
  rw [countings, List.getElem?_mapIdx, List.getElem?_mapIdx]
  rcases hi : hs[i]? with _ | x
  · rfl
  · have hx : x ∈ hs := List.mem_of_getElem? hi
    obtain ⟨e, he⟩ := contains_iff.1 (hlive x hx)
    have hcount : (g.count? x).getD 0 = e.count.value := by
      rw [count?, he, Option.map_some, Option.getD_some]
    have htake : (hs.take (i + 1)).count x ≤ hs.count x := (List.take_sublist _ _).count_le x
    have hmax := hroom x hx e he
    rw [Option.map_some, Option.map_some, hcount, Nat.min_eq_left (by omega)]

/-! ### A construction -/

/-- What a graph gains with a node: the second graph is the first one with `node` under `h`. -/
structure Gains (g : Graph) (node : Node) (h : Handle) (G : Graph) : Prop where
  /-- The handle was never given to a node before. -/
  fresh : ¬ g.Issued h
  /-- The node is there, without references and without a root. -/
  added : G.get? h = some ⟨node, .zero, false⟩
  /-- What was there has one reference more for each of its occurrences, and is as it was apart from
  that. -/
  kept : ∀ x e, g.get? x = some e → ∃ e', G.get? x = some e' ∧ e'.node = e.node ∧
    e'.rooted = e.rooted ∧ e'.count.value = e.count.value + node.children.count x
  /-- Nothing else is there. -/
  only : ∀ x, x ≠ h → ¬ g.contains x → ¬ G.contains x
  /-- There is one node more. -/
  size : G.size = g.size + 1
  /-- A node was added, and a reference for each occurrence. -/
  totals : G.totals = { g.totals with
    constructed := g.totals.constructed + 1
    increments := g.totals.increments + node.children.length }
  /-- The graph is opened as it was, no defect was noticed and nothing was logged. -/
  rest : G.id = g.id ∧ G.policy = g.policy ∧ G.defects = g.defects ∧ G.log = g.log
  /-- The sink was told of the node, and then of each occurrence in order: of the last of several
  occurrences of a node, that there are so many references more than before. -/
  told : G.sink = (.constructed h node.kind :: node.children.mapIdx fun i x =>
    .referenced x ((g.count? x).getD 0 + (node.children.take (i + 1)).count x)).foldl
      Sink.deliver g.sink

/-- A reference more is not logged. -/
theorem log_raise (g : Graph) (h : Handle) : (g.raise h).log = g.log := by
  unfold raise
  split
  · exact g.log_modify h _
  · rfl

/-- **A construction over live operands with room to count adds one node and these references.** -/
theorem gains_built (hlive : ∀ x ∈ node.children, g.contains x) (hroom : g.Room node.children) :
    g.Gains node (g.add node).1 (node.children.foldl raise (g.add node).2) where
  fresh := g.not_issued_add_fst node
  added := by rw [get?_built hlive, if_pos rfl]
  kept := by
    intro x e he
    have hne : x ≠ (g.add node).1 := by
      rintro rfl
      rw [get?_add_fst] at he
      cases he
    refine ⟨{ e with count := e.count.plus (node.children.count x) }, ?_, rfl, rfl, ?_⟩
    · rw [get?_built hlive, if_neg hne, he, Option.map_some]
    · rw [Count.value_plus]
      by_cases hx : x ∈ node.children
      · exact Nat.min_eq_left (hroom x hx e he)
      · have hle := e.count.value_le
        rw [List.count_eq_zero.2 hx]
        exact Nat.min_eq_left hle
  only := by
    intro x hne hx hx'
    obtain ⟨e', he'⟩ := contains_iff.1 hx'
    rw [get?_built hlive, if_neg hne] at he'
    obtain ⟨e, he, -⟩ := Option.map_eq_some_iff.1 he'
    exact hx (contains_iff.2 ⟨e, he⟩)
  size := by rw [foldl_raise_eq Graph.size size_raise, size_add]
  totals := totals_built hlive
  rest := by
    have hevolves := foldl_raise_evolves node.children (g.add node).2
    refine ⟨hevolves.id, hevolves.policy, ?_, ?_⟩
    · rw [foldl_raise_eq Graph.defects defects_raise, defects_add]
    · rw [foldl_raise_eq Graph.log log_raise]
      rfl
  told := by
    have hlive' : ∀ x ∈ node.children, (g.add node).2.contains x := fun x hx =>
      contains_add (hlive x hx) node
    have hcount : ∀ x ∈ node.children, (g.add node).2.count? x = g.count? x := by
      intro x hx
      have hne : x ≠ (g.add node).1 := by
        rintro rfl
        exact add_fst_not_mem_children hlive hx
      rw [count?, get?_add, if_neg hne, count?]
    rw [sink_foldl_raise hlive', countings_congr hcount, countings_of_room hlive hroom]
    rfl

/-- **What a construction adds.** Whatever the counts of a graph say, a command that builds a node
over live operands, with room to count them, is carried out under a handle that was never issued.
The node's children are the operands in order, every operand has as many references more as it has
occurrences among them, and nothing else in the graph is different. A sink that takes every message
gets one for the node, and then one for each operand in order, with the running count. -/
theorem perform_gains (hc : c.node? = some node) (hlive : ∀ x ∈ c.named, g.contains x)
    (hroom : g.Room c.named) :
    ∃ h, (g.perform c).1 = .done (.node h) ∧ g.Gains node h (g.perform c).2 ∧
      (g.perform c).2.childrenOf h = c.named ∧
      ((∀ level, g.sink.accepts level) → (g.perform c).2.sink.received.toList =
        g.sink.received.toList ++ .constructed h node.kind :: c.named.mapIdx fun i x =>
          .referenced x ((g.count? x).getD 0 + (c.named.take (i + 1)).count x)) := by
  rw [Command.named_of_node? hc] at hlive hroom ⊢
  have hnone : node.children.find? (fun x => !g.contains x) = none := by
    rw [List.find?_eq_none]
    intro x hx
    simpa using hlive x hx
  have hperform : g.perform c =
      (.done (.node (g.add node).1), node.children.foldl raise (g.add node).2) := by
    rw [perform_of_node? hc, build, hnone]
    rfl
  have hgains := gains_built hlive hroom
  rw [hperform]
  refine ⟨_, rfl, hgains, childrenOf_of_get? hgains.added, ?_⟩
  intro hsink
  rw [hgains.told, Sink.foldl_deliver_of_accepts _ hsink, Array.toList_append]

end Graph

namespace History

/-- A number that is added to itself and loses both references; the sum has one that no operand
accounts for. -/
def disowned : History where
  id := ⟨1⟩
  settings := ⟨.ofDestination .memory, .report⟩
  commands := [.intLiteral 7, .arithmetic .add [.ofSlot 1 0, .ofSlot 1 0],
    .decrement (.ofSlot 1 0), .decrement (.ofSlot 1 0), .increment (.ofSlot 1 1),
    .root (.ofSlot 1 0)]

/-- The number goes. -/
def bereft : History :=
  disowned.andThen (.release ⟨.ofSlot 1 0⟩)

/-- A call of a function on the sum, twice, moves into the slot that the sum still names by the
handle of the number. The references of the sum are told of as its second and third. -/
theorem bereft_call_gains :
    bereft.graph.childrenOf (.ofSlot 1 1) = [.ofSlot 1 0, .ofSlot 1 0] ∧
      bereft.graph.count? (.ofSlot 1 1) = some 1 ∧
      ∃ h, (bereft.graph.perform (.call "f" [.ofSlot 1 1, .ofSlot 1 1])).1 = .done (.node h) ∧
        ¬ bereft.graph.Issued h ∧
        (bereft.graph.perform (.call "f" [.ofSlot 1 1, .ofSlot 1 1])).2.sink.received.toList =
          bereft.graph.sink.received.toList ++ [.constructed h .call,
            .referenced (.ofSlot 1 1) 2, .referenced (.ofSlot 1 1) 3] := by
  have hrun : ((Cascade.start (disowned.graph.unroot (.ofSlot 1 0)) (.ofSlot 1 0)).runWithin
      2).map (fun result => (result.1, result.2.entries)) =
        some (.done #[.ofSlot 1 0], [(.ofSlot 1 1, ⟨.arithmetic .add [.ofSlot 1 0, .ofSlot 1 0],
          ⟨1, by decide⟩, false⟩)]) := by decide
  obtain ⟨⟨outcome, G⟩, hG, heq⟩ := Option.map_eq_some_iff.1 hrun
  obtain ⟨rfl, hentries⟩ := Prod.mk.inj heq
  have hnumber : disowned.graph.get? (.ofSlot 1 0) = some ⟨.intLiteral 7, .zero, true⟩ := by decide
  have hsum : bereft.graph.get? (.ofSlot 1 1) =
      some ⟨.arithmetic .add [.ofSlot 1 0, .ofSlot 1 0], ⟨1, by decide⟩, false⟩ := by
    rw [bereft, graph_andThen_release (r := ⟨.ofSlot 1 0⟩) hnumber rfl rfl hG]
    exact Graph.mem_entries.1 (hentries ▸ List.mem_singleton_self _)
  have hsink : ∀ level, bereft.graph.sink.accepts level := by
    obtain ⟨ms, faults, hms⟩ := bereft.journals
    intro level
    rw [hms.accepts]
    cases level <;> rfl
  have hcount : bereft.graph.count? (.ofSlot 1 1) = some 1 := by
    rw [Graph.count?, hsum, Option.map_some]
  have honly : ∀ x ∈ (Command.call "f" [.ofSlot 1 1, .ofSlot 1 1]).named, x = .ofSlot 1 1 := by
    simp [Command.named]
  have hlive : ∀ x ∈ (Command.call "f" [.ofSlot 1 1, .ofSlot 1 1]).named,
      bereft.graph.contains x := by
    intro x hx
    rw [honly x hx]
    exact Graph.contains_iff.2 ⟨_, hsum⟩
  have hroom : bereft.graph.Room (Command.call "f" [.ofSlot 1 1, .ofSlot 1 1]).named := by
    intro x hx e he
    rw [honly x hx] at he ⊢
    obtain rfl := Option.some_inj.1 (hsum.symm.trans he)
    decide
  obtain ⟨h, hdone, hgains, -, htold⟩ := Graph.perform_gains rfl hlive hroom
  refine ⟨Graph.childrenOf_of_get? hsum, hcount, h, hdone, hgains.fresh, ?_⟩
  rw [htold hsink]
  simp [Command.named, hcount, Node.kind]

end History

end SharedExpr
