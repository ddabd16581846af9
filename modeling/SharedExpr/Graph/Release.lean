import SharedExpr.Graph.Defect

/-!
# Roots, and what goes when they go

A root keeps a node alive from the outside. Giving it up reclaims the node if no operand names it,
and then, edge by edge, every node that has lost its last reference and is not rooted itself.

* `Graph.edgeFate` — what is found at the other end of an edge of a reclaimed node: one reference
  less, or a defect.
* `Cascade` — the work as the state of a machine: the graph, the edges of the node reclaimed last
  that are still to be dropped, the nodes that wait to be reclaimed, and the report so far.
* `Cascade.step` — one step drops one edge or reclaims one node, so what is true *during* a release
  is a statement about the states that the steps run through.
* `Cascade.run` — the steps taken to the end. A step that drops an edge or skips a handle leaves the
  number of live nodes alone and shortens the work, and a step that reclaims takes a live node away
  (`Cascade.step_decreases`), so a run ends whatever the counts say.
* `Graph.root`, `Graph.release` — taking a root and giving it up.

Scope: it is not shown here that the right nodes go. That needs what the counts mean, and the steps
do not ask: they act on the counts as they find them.
-/

namespace SharedExpr

/-! ## Dropping an edge -/

/-- What is found when an edge of a reclaimed node is dropped. -/
inductive EdgeFate where
  /-- The child has one reference less and now has `count`; `rooted` says whether a root holds
  it. -/
  | lowered (count : Count) (rooted : Bool)
  /-- The child's count is zero already, or the child is gone. -/
  | defective (fault : Fault)
deriving DecidableEq

/-- What becomes of the edge from a reclaimed `parent` to `child`. -/
def Graph.edgeFate (g : Graph) (parent child : Handle) : EdgeFate :=
  match g.get? child with
  | none => .defective (.danglingEdge parent child)
  | some e =>
    match e.count.decrement? with
    | some count => .lowered count e.rooted
    | none => .defective (.underflow child e.count.value)

/-! ## Reclaiming a node -/

/-- The graph without a live node, as reclaiming the node leaves it. -/
def Graph.reclaim (g : Graph) (h : Handle) (kind : Kind) : Graph :=
  let g := g.remove h
  { g with totals := { g.totals with released := g.totals.released + 1 } }.tell (.released h kind)

/-- A node that was reclaimed is no longer found, and the others are found as before. -/
theorem Graph.get?_reclaim (g : Graph) (h : Handle) (kind : Kind) (l : Handle) :
    (g.reclaim h kind).get? l = if l = h then none else g.get? l :=
  g.get?_remove h l

/-- Reclaiming a live node leaves one node less. -/
theorem Graph.size_reclaim {g : Graph} {h : Handle} {e : Entry} (he : g.get? h = some e)
    (kind : Kind) : (g.reclaim h kind).size + 1 = g.size :=
  size_remove he

/-! ## The cascade -/

/-- A cascade under way. -/
structure Cascade where
  /-- The graph as it is by now. -/
  graph : Graph
  /-- Edges, as parent and child, of the node reclaimed last, which are still to be dropped. -/
  edges : List (Handle × Handle)
  /-- The nodes that wait to be reclaimed, the next one at the head. -/
  pending : List Handle
  /-- The nodes reclaimed so far, in order. -/
  report : Array Handle

/-- What one step of a cascade comes to. -/
inductive Progress where
  /-- There was nothing left to do. -/
  | finished (report : Array Handle) (graph : Graph)
  /-- The policy abandoned the release at a defect. -/
  | aborted (fault : Fault) (graph : Graph)
  /-- There is more to do. -/
  | running (next : Cascade)

namespace Cascade

/-- The cascade that reclaims a node first. -/
def start (g : Graph) (h : Handle) : Cascade :=
  ⟨g, [], [h], #[]⟩

/-- One step: drop the next edge if there is one, otherwise reclaim the next node. -/
def step (c : Cascade) : Progress :=
  match c with
  | ⟨g, (parent, child) :: edges, pending, report⟩ =>
    match g.edgeFate parent child with
    | .lowered count rooted =>
      .running ⟨g.lowerTo child count, edges,
        if count.isZero && !rooted then child :: pending else pending, report⟩
    | .defective fault =>
      match g.policy with
      | .report => .running ⟨g.note child fault, edges, pending, report⟩
      | .abort => .aborted fault (g.note child fault)
  | ⟨g, [], h :: pending, report⟩ =>
    match g.get? h with
    | some e =>
      .running ⟨g.reclaim h e.node.kind, e.node.children.map fun child => (h, child), pending,
        report.push h⟩
    | none => .running ⟨g, [], pending, report⟩
  | ⟨g, [], [], report⟩ => .finished report g

/-- The work on the list of a cascade: an edge may put a node on the list when it is dropped. -/
def work (c : Cascade) : Nat :=
  2 * c.edges.length + c.pending.length

/-- A step that goes on takes a live node away or leaves less work. -/
theorem step_decreases {c d : Cascade} (h : c.step = .running d) :
    d.graph.size < c.graph.size ∨ d.graph.size = c.graph.size ∧ d.work < c.work := by
  unfold step at h
  split at h
  · rename_i g parent child edges pending report
    split at h
    · rename_i count rooted _
      cases h
      refine Or.inr ⟨g.size_lowerTo child count, ?_⟩
      simp only [work, List.length_cons]
      split
      · rw [List.length_cons]
        omega
      · omega
    · rename_i fault _
      split at h
      · cases h
        refine Or.inr ⟨g.size_note child fault, ?_⟩
        simp only [work, List.length_cons]
        omega
      · cases h
  · split at h
    · rename_i e he
      cases h
      have := Graph.size_reclaim he e.node.kind
      exact Or.inl (by simp only; omega)
    · cases h
      refine Or.inr ⟨rfl, ?_⟩
      simp [work]
  · cases h

/-- The cascade carried through. -/
def run (c : Cascade) : Outcome (Array Handle) × Graph :=
  match _h : c.step with
  | .finished report g => (.done report, g)
  | .aborted fault g => (.aborted fault, g)
  | .running next => next.run
termination_by (c.graph.size, c.work)
decreasing_by
  rcases step_decreases _h with hlt | ⟨heq, hlt⟩
  · exact Prod.Lex.left _ _ hlt
  · rw [heq]
    exact Prod.Lex.right _ hlt

end Cascade

/-! ## Roots -/

namespace Graph

/-- The graph with the mark of a node that tells whether a root holds it. -/
def setRooted (g : Graph) (h : Handle) (rooted : Bool) : Graph :=
  g.modify h fun e => { e with rooted := rooted }

/-- The root of a node. A node that has one already is refused. -/
def root (g : Graph) (h : Handle) : Outcome Root × Graph :=
  match g.get? h with
  | none => (.refused (.unknownNode h), g)
  | some e =>
    if e.rooted then (.refused (.alreadyRooted h), g)
    else (.done ⟨h⟩, (g.setRooted h true).tell (.rooted h))

/-- The wording of the log record that ends a cascade. -/
def releaseRecord (h : Handle) (reclaimed live : Nat) : String :=
  "released root " ++ h.text ++ ": " ++ Nat.repr reclaimed ++ " node(s) reclaimed, "
    ++ Nat.repr live ++ " live"

/-- Reclaims a node that nothing holds any more, and all that goes with it. -/
def reclaimFrom (g : Graph) (h : Handle) : Outcome (Array Handle) × Graph :=
  match (Cascade.start g h).run with
  | (.done report, g) =>
    (.done report, g.write .debug (releaseRecord h report.size g.size))
  | (outcome, g) => (outcome, g)

/-- Gives up a root; the result lists the nodes reclaimed, in order. A root of another graph, or of
a node that is not rooted, is refused. -/
def release (g : Graph) (r : Root) : Outcome (Array Handle) × Graph :=
  match g.get? r.node with
  | none => (.refused (.unknownNode r.node), g)
  | some e =>
    if e.rooted then
      let g := g.setRooted r.node false
      if e.count.isZero then g.reclaimFrom r.node
      else (.done #[], g.tell (.unrooted r.node e.count.value))
    else (.refused (.unknownNode r.node), g)

end Graph

end SharedExpr
