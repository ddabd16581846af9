/-!
# Handles: permanent names of nodes

A node is named by the graph that made it and by a key into that graph's store. A key is a slot
together with the generation of its occupant, so that a slot can be given to a new node while
every handle of the old one stays dead.

* `GraphId`, `Key`, `Handle` — the parts of a name and the name; `Handle.null` names no node of any
  graph.
* `GraphId.text`, `Key.text`, `Handle.text` — how they are written.
* `Handle.le` — the order of handles, total (`Handle.le_total`) and transitive (`Handle.le_trans`);
  `Handle.sort` puts a list in that order.

Scope: whether a handle is live is a question to a store (`SharedExpr.Store`), not to the handle.
-/

namespace SharedExpr

/-! ## Identities of graphs -/

/-- Identity of one graph. Number `0` belongs to no graph; it is the graph of `Handle.null`. -/
structure GraphId where
  /-- The number under which the graph was opened. -/
  number : Nat
deriving DecidableEq, Hashable, Inhabited

/-- The written form of a graph's identity. -/
def GraphId.text (g : GraphId) : String :=
  "GraphId(" ++ Nat.repr g.number ++ ")"

/-! ## Keys -/

/-- A place in a store together with the generation of its occupant. Both count from zero. -/
structure Key where
  /-- Position of the slot. -/
  slot : Nat
  /-- How many occupants the slot had before this one. -/
  generation : Nat
deriving DecidableEq, Hashable, Inhabited

/-- The version that is written for a key. A slot's version grows by one when its occupant
leaves and by one when the next one moves in, so occupied slots have odd versions. -/
def Key.version (k : Key) : Nat :=
  2 * k.generation + 1

/-- The written form of a key: slots are counted from one. -/
def Key.text (k : Key) : String :=
  Nat.repr (k.slot + 1) ++ "v" ++ Nat.repr k.version

/-! ## Handles -/

/-- The name of a node. -/
structure Handle where
  /-- The graph that issued the handle. -/
  graph : GraphId
  /-- The key of the node in that graph; `none` names no node. -/
  key : Option Key
deriving DecidableEq, Hashable, Inhabited

namespace Handle

/-- The handle that names no node of any graph. -/
def null : Handle :=
  ⟨⟨0⟩, none⟩

/-- The written form of a handle. -/
def text (h : Handle) : String :=
  "NodeId(" ++ Nat.repr h.graph.number ++ ":" ++ (h.key.elim "null" Key.text) ++ ")"

/-- Order of handles: by graph, then by slot with the missing key last, then by version. -/
def le (a b : Handle) : Bool :=
  if a.graph.number = b.graph.number then
    match a.key, b.key with
    | _, none => true
    | none, some _ => false
    | some k, some l => if k.slot = l.slot then k.version ≤ l.version else k.slot < l.slot
  else a.graph.number < b.graph.number

/-- Any two handles are in order one way or the other. -/
theorem le_total (a b : Handle) : le a b || le b a := by
  unfold le
  split <;> split <;> grind

/-- The order of handles is transitive. -/
theorem le_trans (a b c : Handle) (hab : le a b) (hbc : le b c) : le a c := by
  unfold le at *
  grind

/-- A list of handles in ascending order, repetitions kept. -/
def sort (hs : List Handle) : List Handle :=
  hs.mergeSort le

/-- Sorting neither adds handles nor drops any. -/
theorem sort_perm (hs : List Handle) : (sort hs).Perm hs :=
  List.mergeSort_perm hs le

/-- Sorted handles stand in order. -/
theorem sort_pairwise (hs : List Handle) : (sort hs).Pairwise (fun a b => le a b) :=
  List.pairwise_mergeSort le_trans le_total hs

end Handle

end SharedExpr
