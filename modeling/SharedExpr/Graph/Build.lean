import SharedExpr.Graph.Basic

/-!
# Building expressions

A node is added in two moves: it enters the graph with a count of zero (`Graph.add`), and then each
operand occurrence raises the count of the operand by one (`Graph.raise`). The operands are looked
up before the first move.

* `Graph.build` — a new node over live children. If a child is not live the graph stays as it is and
  the first such child is named (`Graph.build_fst_eq_refused_iff`, `Graph.build_snd_of_refused`); if
  all are live nothing can fail any more.
* `Graph.increment` — one more reference, for edges that are kept outside of the graph.

What the moves do to entries: `Graph.get?_add`, `Graph.get?_raise`.
-/

namespace SharedExpr.Graph

/-- The graph with one more node, which nothing references yet, and the node's handle. -/
def add (g : Graph) (node : Node) : Handle × Graph :=
  match g with
  | ⟨id, store, policy, sink, defects, totals, log⟩ =>
    let (k, store) := store.insert ⟨node, .zero, false⟩
    let h : Handle := ⟨id, some k⟩
    (h, tell ⟨id, store, policy, sink, defects,
        { totals with constructed := totals.constructed + 1 }, log⟩ (.constructed h node.kind))

/-- The graph with a count set, as one more reference has made it. -/
def raiseTo (g : Graph) (h : Handle) (count : Count) : Graph :=
  let g := g.modify h fun e => { e with count := count }
  { g with totals := { g.totals with increments := g.totals.increments + 1 } }.tell
    (.referenced h count.value)

/-- The graph with one more reference to a node, if it is live. -/
def raise (g : Graph) (h : Handle) : Graph :=
  match g.get? h with
  | some e => g.raiseTo h e.count.increment
  | none => g

/-- One more reference to a node; the result is its new count. -/
def increment (g : Graph) (h : Handle) : Outcome Nat × Graph :=
  match g.get? h with
  | some e => (.done e.count.increment.value, g.raiseTo h e.count.increment)
  | none => (.refused (.unknownNode h), g)

/-- A new node over live children, each occurrence of which is counted. -/
def build (g : Graph) (node : Node) : Outcome Handle × Graph :=
  match node.children.find? fun c => !g.contains c with
  | some missing => (.refused (.unknownNode missing), g)
  | none =>
    let (h, g) := g.add node
    (.done h, node.children.foldl raise g)

/-- A new integer. -/
def intLiteral (g : Graph) (value : Int64) : Outcome Handle × Graph :=
  g.build (.intLiteral value)

/-- A new use of a variable. -/
def varUse (g : Graph) (name : String) : Outcome Handle × Graph :=
  g.build (.varUse name)

/-- A new comparison. -/
def comparison (g : Graph) (op : Comparison) (left right : Handle) : Outcome Handle × Graph :=
  g.build (.comparison op left right)

/-- A new arithmetic expression. -/
def arithmetic (g : Graph) (op : Arithmetic) (operands : List Handle) : Outcome Handle × Graph :=
  g.build (.arithmetic op operands)

/-- A new call. -/
def call (g : Graph) (callee : String) (args : List Handle) : Outcome Handle × Graph :=
  g.build (.call callee args)

/-! ## What building does to entries -/

/-- The handle of a new node was not live before. -/
theorem get?_add_fst (g : Graph) (node : Node) : g.get? (g.add node).1 = none := by
  have := g.store.get?_insert_fst ⟨node, .zero, false⟩
  simpa [add, get?] using this

/-- A node that was added is found under its handle, without references and without a root. -/
theorem get?_add (g : Graph) (node : Node) (l : Handle) :
    (g.add node).2.get? l =
      if l = (g.add node).1 then some ⟨node, .zero, false⟩ else g.get? l := by
  obtain ⟨j, key⟩ := l
  simp only [add, get?, tell, Handle.mk.injEq]
  by_cases hj : j = g.id
  · subst hj
    cases key with
    | none => simp
    | some k => simp [Store.get?_insert]
  · simp [hj]

/-- The count is stored with its node, and nothing else changes. -/
theorem get?_raiseTo (g : Graph) (h : Handle) (count : Count) (l : Handle) :
    (g.raiseTo h count).get? l =
      if l = h then (g.get? h).map (fun e => { e with count := count }) else g.get? l :=
  g.get?_modify h _ l

/-- One reference more is counted at its node, and nothing else changes. -/
theorem get?_raise (g : Graph) (h l : Handle) :
    (g.raise h).get? l =
      if l = h then (g.get? h).map (fun e => { e with count := e.count.increment })
      else g.get? l := by
  unfold raise
  split
  · rename_i e he
    rw [get?_raiseTo, he]
    rfl
  · rename_i he
    split
    · rename_i hl
      rw [hl, he]
      rfl
    · rfl

/-- Building is refused exactly for a child that is not live, and the first such child is named. -/
theorem build_fst_eq_refused_iff {g : Graph} {node : Node} {fault : Fault} :
    (g.build node).1 = .refused fault ↔
      ∃ missing, node.children.find? (fun c => !g.contains c) = some missing ∧
        fault = .unknownNode missing := by
  unfold build
  split
  · rename_i m hm
    simp [hm, eq_comm]
  · rename_i hm
    simp [hm]

/-- A refusal to build changes nothing. -/
theorem build_snd_of_refused {g : Graph} {node : Node} {fault : Fault}
    (h : (g.build node).1 = .refused fault) : (g.build node).2 = g := by
  unfold build at *
  split at h
  · simp_all
  · cases h

end SharedExpr.Graph
