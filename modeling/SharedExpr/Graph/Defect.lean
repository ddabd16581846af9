import SharedExpr.Graph.Basic

/-!
# Defects and single references

When a reference is taken from a node the bookkeeping can be caught lying: the count may be zero
already, or the node may be gone.

* `Graph.note` — what a graph does when a defect is noticed: it logs it, tells its sink and, under
  the reporting policy, records it.
* `Graph.verdict` — what becomes of the operation in which it was noticed.
* `Graph.decrement` — one reference less, for edges that are kept outside of the graph.

Neither `Graph.note` nor `Graph.lowerTo` changes which nodes are live (`Graph.get?_note`,
`Graph.get?_lowerTo`).
-/

namespace SharedExpr.Graph

/-- The graph after a defect at a node was noticed. -/
def note (g : Graph) (node : Handle) (fault : Fault) : Graph :=
  let g := (g.write .error fault.message).tell (.defect node fault)
  match g.policy with
  | .report => { g with defects := g.defects.push fault }
  | .abort => g

/-- What a defect makes of the operation that was asked for: the policy decides. -/
def verdict {α : Type} (g : Graph) (fault : Fault) : Outcome α :=
  match g.policy with
  | .report => .refused fault
  | .abort => .aborted fault

/-- The graph with a count set, as one reference less has made it. -/
def lowerTo (g : Graph) (h : Handle) (count : Count) : Graph :=
  let g := g.modify h fun e => { e with count := count }
  { g with totals := { g.totals with decrements := g.totals.decrements + 1 } }.tell
    (.dereferenced h count.value)

/-- One reference less to a node; the result is its new count. A count of zero stays, and is a
defect. -/
def decrement (g : Graph) (h : Handle) : Outcome Nat × Graph :=
  match g.get? h with
  | none => (.refused (.unknownNode h), g)
  | some e =>
    match e.count.decrement? with
    | some count => (.done count.value, g.lowerTo h count)
    | none =>
      let fault := .underflow h e.count.value
      (g.verdict fault, g.note h fault)

/-! ## What they do to entries -/

/-- A defect that is noted changes no entry. -/
@[simp] theorem get?_note (g : Graph) (node : Handle) (fault : Fault) (h : Handle) :
    (g.note node fault).get? h = g.get? h := by
  unfold note
  dsimp only
  split <;> rfl

/-- A defect that is noted leaves the number of nodes as it is. -/
@[simp] theorem size_note (g : Graph) (node : Handle) (fault : Fault) :
    (g.note node fault).size = g.size := by
  unfold note
  dsimp only
  split <;> rfl

/-- The lower count is stored with its node, and nothing else changes. -/
theorem get?_lowerTo (g : Graph) (h : Handle) (count : Count) (l : Handle) :
    (g.lowerTo h count).get? l =
      if l = h then (g.get? h).map (fun e => { e with count := count }) else g.get? l :=
  g.get?_modify h _ l

/-- A lower count leaves the number of nodes as it is. -/
@[simp] theorem size_lowerTo (g : Graph) (h : Handle) (count : Count) :
    (g.lowerTo h count).size = g.size :=
  g.size_modify h _

end SharedExpr.Graph
