import SharedExpr.Handle

/-!
# Faults: what can be wrong, and how it is told

One constructor for each thing that an operation on a graph can refuse or notice. Some faults are
answers to a caller who named a node that is not there; others are defects of the bookkeeping that
are noticed on the way. `Fault.message` is the one place where the wording is decided.
-/

namespace SharedExpr

/-- Something that an operation refuses or notices. -/
inductive Fault where
  /-- A reference was to be taken from a node whose count is already zero. -/
  | underflow (node : Handle) (count : Nat)
  /-- The handle names no live node of the graph. -/
  | unknownNode (node : Handle)
  /-- The node is already held by a root. -/
  | alreadyRooted (node : Handle)
  /-- The stored count differs from the number of operand occurrences. -/
  | countMismatch (node : Handle) (stored actual : Nat)
  /-- A node has a child that is no longer live. -/
  | danglingEdge (parent child : Handle)
  /-- The file for trace messages cannot be opened. -/
  | traceUnavailable (path reason : String)
deriving DecidableEq, Inhabited

/-- The wording of a fault. -/
def Fault.message : Fault → String
  | .underflow node count =>
    "Reference count of node " ++ node.text ++ " would go negative (count is " ++ Nat.repr count
      ++ "). A decrement was not paired with a construction edge."
  | .unknownNode node => "Node " ++ node.text ++ " is not a live node of this graph."
  | .alreadyRooted node =>
    "Node " ++ node.text ++ " is already held as a root. A node has at most one external owner."
  | .countMismatch node stored actual =>
    "Node " ++ node.text ++ " stores a reference count of " ++ Nat.repr stored ++ " but "
      ++ Nat.repr actual ++ " live edges point to it."
  | .danglingEdge parent child =>
    "Node " ++ parent.text ++ " references node " ++ child.text ++ ", which is no longer live."
  | .traceUnavailable path reason =>
    "Failed to open allocation trace file '" ++ path ++ "': " ++ reason

end SharedExpr
