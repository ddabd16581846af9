import SharedExpr.Proofs.Graph.Equality

/-!
# Graphs that agree below a node

What is done from a node on — comparing, printing, walking — looks at the nodes that it reaches and
at nothing else. Two graphs may hold different nodes elsewhere, in other slots and in other numbers;
if they agree below a node, they cannot be told apart from there.

* `Graph.AgreesBelow` — whatever a node reaches in the first graph is the same node in the second.
  What holds of a node holds of its children (`Graph.AgreesBelow.of_child`).
* `Graph.Whole` — whatever a node reaches is live.
* `Graph.Ordered.sameExpression_of_agreesBelow` — **a whole node is the same expression in both**.
-/

namespace SharedExpr.Graph

variable {g k : Graph} {h p c : Handle} {n : Node}

/-- Whatever the node reaches in `g` is the same node in `k`. -/
def AgreesBelow (g k : Graph) (h : Handle) : Prop :=
  ∀ l, g.Reaches h l → k.node? l = g.node? l

/-- The node and whatever it reaches are live. -/
def Whole (g : Graph) (h : Handle) : Prop :=
  ∀ l, g.Reaches h l → g.contains l

/-- From a live node there is an edge to each of its children. -/
theorem mem_edges_of_child (hn : g.node? p = some n) (hc : c ∈ n.children) :
    (p, c) ∈ g.edges := by
  rw [mem_edges_iff, childrenOf, hn]
  exact hc

/-- Graphs that agree below a handle have the same node under it. -/
theorem AgreesBelow.node?_eq (hk : g.AgreesBelow k h) : k.node? h = g.node? h :=
  hk h .refl

/-- Graphs that agree below a handle agree below the children of its node. -/
theorem AgreesBelow.of_child (hk : g.AgreesBelow k p) (hn : g.node? p = some n)
    (hc : c ∈ n.children) : g.AgreesBelow k c :=
  fun l hl => hk l (.head (mem_edges_of_child hn hc) hl)

/-- If all is live below a handle, all is live below the children of its node. -/
theorem Whole.of_child (hg : g.Whole p) (hn : g.node? p = some n) (hc : c ∈ n.children) :
    g.Whole c :=
  fun l hl => hg l (.head (mem_edges_of_child hn hc) hl)

/-- If all is live below a handle, its node is live. -/
theorem Whole.exists_node? (hg : g.Whole h) : ∃ n, g.node? h = some n :=
  contains_iff_node?.1 (hg h .refl)

/-- A node has the form that it has. -/
theorem sameForm_self (n : Node) : sameForm n n := by
  simp [sameForm]

/-- A whole node is alike in graphs that agree below it. -/
theorem Ordered.alike_of_agreesBelow (hg : g.Ordered) (hwhole : g.Whole h)
    (hk : g.AgreesBelow k h) : g.Alike k h h := by
  induction h using hg.wellFounded.induction with
  | _ h ih =>
  obtain ⟨n, hn⟩ := hwhole.exists_node?
  apply Alike.intro hn (hk.node?_eq.trans hn) (sameForm_self n)
  rintro ⟨c, d⟩ hcd
  obtain ⟨hc, rfl⟩ : c ∈ n.children ∧ c = d := by
    obtain ⟨i, hi, heq⟩ := List.mem_iff_getElem.1 hcd
    rw [List.getElem_zip, Prod.mk.injEq] at heq
    exact ⟨heq.1 ▸ List.getElem_mem _, heq.1.symm.trans heq.2⟩
  exact ih c (mem_edges_of_child hn hc) (hwhole.of_child hn hc) (hk.of_child hn hc)

/-- **A whole node is the same expression in graphs that agree below it.** -/
theorem Ordered.sameExpression_of_agreesBelow (hg : g.Ordered) (hwhole : g.Whole h)
    (hk : g.AgreesBelow k h) : g.sameExpression h k h :=
  hg.sameExpression_iff.2 (hg.alike_of_agreesBelow hwhole hk)

end SharedExpr.Graph
