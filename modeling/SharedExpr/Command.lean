import SharedExpr.Graph.Build
import SharedExpr.Graph.Release

/-!
# Commands: what a graph can be asked to do

The operations that change a graph, as data, so that a history of a graph is a list of commands and
what holds throughout every history is a statement about `Graph.performAll`. Readers are not
commands: they leave the graph as it is by their types.
-/

namespace SharedExpr

/-- An operation that changes a graph. -/
inductive Command where
  /-- Add an integer. -/
  | intLiteral (value : Int64)
  /-- Add a use of a variable. -/
  | varUse (name : String)
  /-- Add a comparison. -/
  | comparison (op : Comparison) (left right : Handle)
  /-- Add an arithmetic expression. -/
  | arithmetic (op : Arithmetic) (operands : List Handle)
  /-- Add a call. -/
  | call (callee : String) (args : List Handle)
  /-- Add a reference. -/
  | increment (node : Handle)
  /-- Take a reference away. -/
  | decrement (node : Handle)
  /-- Take the root of a node. -/
  | root (node : Handle)
  /-- Give up a root. -/
  | release (root : Root)
  /-- Take the recorded defects. -/
  | takeDefects
deriving DecidableEq, Inhabited

/-- The result of a command that was carried out. -/
inductive Reply where
  /-- The handle of a new node. -/
  | node (h : Handle)
  /-- The new count of a node. -/
  | count (n : Nat)
  /-- A root. -/
  | root (r : Root)
  /-- The nodes that a release reclaimed. -/
  | reclaimed (report : Array Handle)
  /-- The defects that were recorded. -/
  | defects (faults : Array Fault)
deriving DecidableEq, Inhabited

namespace Graph

/-- A result told as a reply. -/
def replying {α : Type} (reply : α → Reply) (r : Outcome α × Graph) : Outcome Reply × Graph :=
  (r.1.map reply, r.2)

/-- The outcome of a command, and the graph after it. -/
def perform (g : Graph) : Command → Outcome Reply × Graph
  | .intLiteral value => replying .node (g.intLiteral value)
  | .varUse name => replying .node (g.varUse name)
  | .comparison op left right => replying .node (g.comparison op left right)
  | .arithmetic op operands => replying .node (g.arithmetic op operands)
  | .call callee args => replying .node (g.call callee args)
  | .increment node => replying .count (g.increment node)
  | .decrement node => replying .count (g.decrement node)
  | .root node => replying .root (g.root node)
  | .release root => replying .reclaimed (g.release root)
  | .takeDefects =>
    let (faults, g) := g.takeDefects
    (.done (.defects faults), g)

/-- The outcomes of commands carried out one after the other, and the graph after them all. -/
def performAll (g : Graph) : List Command → List (Outcome Reply) × Graph
  | [] => ([], g)
  | c :: cs =>
    let (outcome, g) := g.perform c
    let (outcomes, g) := g.performAll cs
    (outcome :: outcomes, g)

/-- Without commands nothing happens. -/
@[simp] theorem performAll_nil (g : Graph) : g.performAll [] = ([], g) := rfl

/-- Commands in a row are carried out one part after the other. -/
theorem performAll_append (g : Graph) (cs ds : List Command) :
    g.performAll (cs ++ ds) =
      ((g.performAll cs).1 ++ ((g.performAll cs).2.performAll ds).1,
        ((g.performAll cs).2.performAll ds).2) := by
  induction cs generalizing g with
  | nil => simp
  | cons c cs ih => simp [performAll, ih]

end Graph

end SharedExpr
