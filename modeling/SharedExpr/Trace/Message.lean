import SharedExpr.Fault
import SharedExpr.Node
import SharedExpr.Text.Align

/-!
# Trace messages: the life of nodes, told event by event

Every change that a graph makes to a node is an `Event`; a `Message` is an event with a level and a
wording. The level and the wording of the messages that graphs send are fixed here, one function
for each kind of event, so that a graph only says which event took place.

`Message.line` is the form in which a message stands in a file.
-/

namespace SharedExpr

/-! ## Levels -/

/-- How severe a message is. -/
inductive Level where
  /-- Changes of a count. -/
  | trace
  /-- Arrivals and departures of nodes and roots. -/
  | debug
  /-- Notable but expected. -/
  | info
  /-- Suspicious. -/
  | warn
  /-- Defects. -/
  | error
deriving DecidableEq, Inhabited

namespace Level

/-- The rank of a level, by which levels are ordered. -/
def rank : Level → Nat
  | trace => 0
  | debug => 1
  | info => 2
  | warn => 3
  | error => 4

/-- Every level, from the least severe to the most severe. -/
def all : List Level :=
  [trace, debug, info, warn, error]

/-- The level of a rank. -/
def ofRank? (n : Nat) : Option Level :=
  all[n]?

/-- The name of a level. -/
def name : Level → String
  | trace => "Trace"
  | debug => "Debug"
  | info => "Info"
  | warn => "Warn"
  | error => "Error"

/-- The level of a rank is the one that has this rank. -/
theorem ofRank?_eq_some_iff {n : Nat} {l : Level} : ofRank? n = some l ↔ l.rank = n := by
  constructor
  · intro h
    match n, h with
    | 0, h | 1, h | 2, h | 3, h | 4, h => cases h; rfl
    | _ + 5, h => simp [ofRank?, all] at h
  · rintro rfl
    cases l <;> rfl

end Level

/-! ## Events -/

/-- One change in the life of a node. -/
inductive Event where
  /-- The node was added to the graph. -/
  | constructed (node : Handle) (kind : Kind)
  /-- The node gained a reference and now has `count`. -/
  | referenced (node : Handle) (count : Nat)
  /-- The node lost a reference and now has `count`. -/
  | dereferenced (node : Handle) (count : Nat)
  /-- The node is now held by a root. -/
  | rooted (node : Handle)
  /-- The root is gone, but `count` references keep the node. -/
  | unrooted (node : Handle) (count : Nat)
  /-- The node was reclaimed. -/
  | released (node : Handle) (kind : Kind)
  /-- A defect of the bookkeeping was noticed at the node. -/
  | defect (node : Handle)
deriving DecidableEq, Inhabited

/-- The node that an event is about. -/
def Event.node : Event → Handle
  | .constructed node _ | .referenced node _ | .dereferenced node _ | .rooted node
  | .unrooted node _ | .released node _ | .defect node => node

/-! ## Messages -/

/-- An event as it is told to whoever listens. -/
structure Message where
  /-- How severe it is. -/
  level : Level
  /-- What took place. -/
  event : Event
  /-- The wording. -/
  text : String
deriving DecidableEq, Inhabited

namespace Message

/-- A node was added. -/
def constructed (node : Handle) (kind : Kind) : Message where
  level := .debug
  event := .constructed node kind
  text := "constructed " ++ kind.name ++ " node " ++ node.text

/-- A node gained a reference. -/
def referenced (node : Handle) (count : Nat) : Message where
  level := .trace
  event := .referenced node count
  text := "reference to node " ++ node.text ++ " added, count is now " ++ Nat.repr count

/-- A node lost a reference. -/
def dereferenced (node : Handle) (count : Nat) : Message where
  level := .trace
  event := .dereferenced node count
  text := "reference to node " ++ node.text ++ " dropped, count is now " ++ Nat.repr count

/-- A node is now held by a root. -/
def rooted (node : Handle) : Message where
  level := .debug
  event := .rooted node
  text := "node " ++ node.text ++ " rooted"

/-- A node lost its root and is kept by references. -/
def unrooted (node : Handle) (count : Nat) : Message where
  level := .debug
  event := .unrooted node count
  text := "node " ++ node.text ++ " unrooted, still referenced by " ++ Nat.repr count
    ++ " parent edge(s)"

/-- A node was reclaimed. -/
def released (node : Handle) (kind : Kind) : Message where
  level := .debug
  event := .released node kind
  text := "released " ++ kind.name ++ " node " ++ node.text

/-- A defect was noticed at a node. -/
def defect (node : Handle) (fault : Fault) : Message where
  level := .error
  event := .defect node
  text := fault.message

/-- A message as a line of a file: the level in a column of five, then the wording. -/
def line (m : Message) : String :=
  "[" ++ Text.alignLeft 5 m.level.name ++ "] " ++ m.text

end Message

end SharedExpr
