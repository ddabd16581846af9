import SharedExpr.Count
import SharedExpr.Outcome
import SharedExpr.Settings
import SharedExpr.Store.Lemmas

/-!
# Graphs of shared expressions

A graph keeps its nodes in a store, each with the number of operand occurrences that name it and
with a mark that says whether a root holds it. Besides, it keeps what it has told the outside: the
defects it recorded, its totals, the messages its sink received and the records it logged.

* `Entry`, `Totals`, `LogRecord`, `Graph` — what a graph is made of; `Root` — the right to release.
* `Graph.get?` — the entry of a node, and the view through which graphs are reasoned about. The
  other readers are read off it; `Graph.mem_entries` ties the listing to it.
* `Graph.modify`, `Graph.remove` — the two ways of changing an entry (`Graph.get?_modify`,
  `Graph.get?_remove`).
* `Graph.tell`, `Graph.write` — a trace message and a log record; neither touches an entry.

Scope: no operation of a user is here. They are in `SharedExpr.Graph.Build`,
`SharedExpr.Graph.Defect` and `SharedExpr.Graph.Release`.
-/

namespace SharedExpr

/-- What a graph keeps for a node. -/
structure Entry where
  /-- The node. -/
  node : Node
  /-- The number of operand occurrences that name the node. -/
  count : Count
  /-- Whether a root holds the node. -/
  rooted : Bool
deriving DecidableEq, Inhabited

/-- How often a graph did what. -/
structure Totals where
  /-- Nodes added. -/
  constructed : Nat
  /-- Nodes reclaimed. -/
  released : Nat
  /-- References added. -/
  increments : Nat
  /-- References taken away. -/
  decrements : Nat
deriving DecidableEq, Inhabited

namespace Totals

/-- Nothing was done yet. -/
def zero : Totals :=
  ⟨0, 0, 0, 0⟩

/-- A short account of totals. -/
def describe (t : Totals) : String :=
  "GraphStats \x7b constructed: " ++ Nat.repr t.constructed ++ ", released: " ++ Nat.repr t.released
    ++ ", increments: " ++ Nat.repr t.increments ++ ", decrements: " ++ Nat.repr t.decrements
    ++ " \x7d"

end Totals

/-- How a log record is rated. -/
inductive Severity where
  /-- A defect. -/
  | error
  /-- A remark for whoever looks for the cause of something. -/
  | debug
deriving DecidableEq, Inhabited

/-- A line of a graph's log. -/
structure LogRecord where
  /-- How it is rated. -/
  severity : Severity
  /-- The wording. -/
  text : String
deriving DecidableEq, Inhabited

/-- Shared expressions with counted references. -/
structure Graph where
  /-- The graph's identity, which is part of every handle that it issues. -/
  id : GraphId
  /-- The live nodes. -/
  store : Store Entry
  /-- What follows a defect. -/
  policy : Policy
  /-- The receiver of trace messages. -/
  sink : Sink
  /-- The defects recorded and not yet taken. -/
  defects : Array Fault
  /-- How often the graph did what. -/
  totals : Totals
  /-- The records logged so far, in order. -/
  log : Array LogRecord
deriving Inhabited

/-- The right to release a node. There is at most one for a node at any time. -/
structure Root where
  /-- The node that is held. -/
  node : Handle
deriving DecidableEq, Inhabited

namespace Graph

/-- The graph without nodes. -/
def ofSettings (id : GraphId) (settings : Settings) : Graph where
  id := id
  store := .empty
  policy := settings.policy
  sink := settings.sink
  defects := #[]
  totals := .zero
  log := #[]

/-! ## Reading -/

/-- The entry of a live node. Handles of other graphs have none. -/
def get? (g : Graph) (h : Handle) : Option Entry :=
  if h.graph = g.id then h.key.bind g.store.get? else none

/-- Whether a handle names a live node of the graph. -/
def contains (g : Graph) (h : Handle) : Bool :=
  (g.get? h).isSome

/-- The node under a handle. -/
def node? (g : Graph) (h : Handle) : Option Node :=
  (g.get? h).map Entry.node

/-- The stored count of a node. -/
def count? (g : Graph) (h : Handle) : Option Nat :=
  (g.get? h).map fun e => e.count.value

/-- Whether a root holds a node. -/
def isRooted? (g : Graph) (h : Handle) : Option Bool :=
  (g.get? h).map Entry.rooted

/-- Whether no operand occurrence names a node. Roots do not count. -/
def isUnreferenced (g : Graph) (h : Handle) : Outcome Bool :=
  match g.get? h with
  | some e => .done e.count.isZero
  | none => .refused (.unknownNode h)

/-- The number of live nodes. -/
def size (g : Graph) : Nat :=
  g.store.size

/-- The handle of a key of this graph. -/
def handle (g : Graph) (k : Key) : Handle :=
  ⟨g.id, some k⟩

/-- The live nodes in ascending order of their slots. -/
def entries (g : Graph) : List (Handle × Entry) :=
  g.store.entries.map fun p => (g.handle p.1, p.2)

/-- The nodes held by roots, in ascending order of their slots. -/
def roots (g : Graph) : List Handle :=
  g.entries.filterMap fun p => if p.2.rooted then some p.1 else none

/-! ## Changing -/

/-- The graph with the entry of a live node replaced by its image. -/
def modify (g : Graph) (h : Handle) (f : Entry → Entry) : Graph :=
  if h.graph = g.id then
    match h.key with
    | some k => { g with store := g.store.modify k f }
    | none => g
  else g

/-- The graph without a node. -/
def remove (g : Graph) (h : Handle) : Graph :=
  if h.graph = g.id then
    match h.key with
    | some k => { g with store := g.store.erase k }
    | none => g
  else g

/-- The graph after it told its sink of an event. -/
@[inline] def tell (g : Graph) (m : Message) : Graph :=
  { g with sink := g.sink.deliver m }

/-- The graph with one more log record. -/
def write (g : Graph) (severity : Severity) (text : String) : Graph :=
  { g with log := g.log.push ⟨severity, text⟩ }

/-- The recorded defects, and the graph without them. -/
def takeDefects (g : Graph) : Array Fault × Graph :=
  (g.defects, { g with defects := #[] })

/-! ## Entries under changes -/

/-- The entry of a node is an entry of the store. -/
theorem get?_eq_some_iff {g : Graph} {h : Handle} {e : Entry} :
    g.get? h = some e ↔ ∃ k, h = g.handle k ∧ g.store.get? k = some e := by
  obtain ⟨i, key⟩ := h
  simp only [get?, handle, Handle.mk.injEq]
  constructor
  · intro h
    split at h
    · rename_i hi
      obtain ⟨k, rfl, hk⟩ := Option.bind_eq_some_iff.1 h
      exact ⟨k, ⟨hi, rfl⟩, hk⟩
    · cases h
  · rintro ⟨k, ⟨rfl, rfl⟩, hk⟩
    simpa using hk

/-- The entries are listed exactly with the handles under which they are found. -/
theorem mem_entries {g : Graph} {h : Handle} {e : Entry} :
    (h, e) ∈ g.entries ↔ g.get? h = some e := by
  rw [get?_eq_some_iff]
  simp only [entries, List.mem_map, Prod.exists, Prod.mk.injEq, Store.mem_entries]
  constructor
  · rintro ⟨k, a, hk, rfl, rfl⟩
    exact ⟨k, rfl, hk⟩
  · rintro ⟨k, rfl, hk⟩
    exact ⟨k, e, hk, rfl, rfl⟩

/-- A message to the sink leaves the entries as they are. -/
@[simp] theorem get?_tell (g : Graph) (m : Message) (h : Handle) :
    (g.tell m).get? h = g.get? h := rfl

/-- A changed entry leaves the identity as it is. -/
@[simp] theorem id_modify (g : Graph) (h : Handle) (f : Entry → Entry) :
    (g.modify h f).id = g.id := by
  unfold modify
  split
  · split <;> rfl
  · rfl

/-- A handle without an entry changes nothing. -/
theorem modify_of_foreign {g : Graph} {h : Handle} (hf : h.graph ≠ g.id ∨ h.key = none)
    (f : Entry → Entry) : g.modify h f = g := by
  unfold modify
  rcases hf with hf | hf
  · rw [if_neg hf]
  · rw [hf]
    split <;> rfl

/-- A handle of another graph, or one without a key, names nothing. -/
theorem get?_of_foreign {g : Graph} {h : Handle} (hf : h.graph ≠ g.id ∨ h.key = none) :
    g.get? h = none := by
  unfold get?
  rcases hf with hf | hf
  · rw [if_neg hf]
  · rw [hf]
    split <;> rfl

/-- A changed entry is found under its handle, and the other entries as before. -/
theorem get?_modify (g : Graph) (h : Handle) (f : Entry → Entry) (l : Handle) :
    (g.modify h f).get? l = if l = h then (g.get? h).map f else g.get? l := by
  by_cases hf : h.graph ≠ g.id ∨ h.key = none
  · rw [modify_of_foreign hf]
    split
    · rename_i hl
      rw [hl, get?_of_foreign hf]
      rfl
    · rfl
  · obtain ⟨i, key⟩ := h
    simp only [not_or, Decidable.not_not] at hf
    obtain ⟨rfl, hk⟩ := hf
    obtain ⟨k, rfl⟩ := Option.ne_none_iff_exists'.1 hk
    obtain ⟨j, key'⟩ := l
    by_cases hj : j = g.id
    · subst hj
      cases key' with
      | none => simp [modify, get?]
      | some k' => simp [modify, get?, Store.get?_modify]
    · simp [modify, get?, hj]

/-- What was removed is no longer found, and the other entries are found as before. -/
theorem get?_remove (g : Graph) (h l : Handle) :
    (g.remove h).get? l = if l = h then none else g.get? l := by
  obtain ⟨i, key⟩ := h
  obtain ⟨j, key'⟩ := l
  simp only [remove, get?, Handle.mk.injEq]
  by_cases hi : i = g.id
  · subst hi
    cases key with
    | none => cases key' <;> simp
    | some k =>
      cases key' with
      | none => simp
      | some k' =>
        by_cases hj : j = g.id
        · simp [hj, Store.get?_erase]
        · simp [hj]
  · by_cases hj : j = i
    · subst hj
      simp [hi]
    · simp [hi, hj]

/-- Removing a live node leaves one node less. -/
theorem size_remove {g : Graph} {h : Handle} {e : Entry} (he : g.get? h = some e) :
    (g.remove h).size + 1 = g.size := by
  obtain ⟨k, rfl, hk⟩ := get?_eq_some_iff.1 he
  simpa [remove, handle, size] using Store.size_erase hk

/-- Changing an entry leaves the number of nodes as it is. -/
@[simp] theorem size_modify (g : Graph) (h : Handle) (f : Entry → Entry) :
    (g.modify h f).size = g.size := by
  unfold modify size
  split
  · split <;> simp
  · rfl

end Graph

end SharedExpr
