import SharedExpr.Graph.Audit
import SharedExpr.Walk.Basic
import Std.Data.HashSet

/-!
# Listings: each node below a node, once

Two orders in which the nodes below a node can be listed without repetition: parents first
(`Graph.reachable`) and children first (`Graph.postorder`). The second is the order in which
shared parts can be put out before they are used.

Both are walks that look at each edge once. A node is expanded at its first visit only, so a graph
with `e` edges and `n` nodes allows the first walk at most `1 + e` visits, one for each edge and
one for the start; the second comes back once to each node, which makes `1 + e + n`. Those are the
numbers of visits that the walks are given.
-/

namespace SharedExpr

/-- The nodes listed so far, and those that have been met. -/
structure Listing where
  /-- The nodes that were met. -/
  met : Std.HashSet Handle
  /-- The nodes listed, in order. -/
  order : Array Handle

namespace Listing

/-- Nothing is listed and nothing was met. -/
def empty : Listing :=
  ⟨∅, #[]⟩

/-- Lists a node when it is met, and then goes on to its children. -/
def preorderVisitor : Visitor Listing Unit := fun l v _ =>
  if l.met.contains v.node then (l, [])
  else (⟨l.met.insert v.node, l.order.push v.node⟩, [.children ()])

/-- Whether a visit comes to a node from above or comes back to it from its children. -/
inductive Phase where
  /-- From above. -/
  | enter
  /-- Back from the children. -/
  | leave
deriving DecidableEq, Inhabited

/-- Goes to the children of a node when it is met, and lists it when coming back. -/
def postorderVisitor : Visitor Listing Phase := fun l v _ =>
  match v.input with
  | .enter =>
    if l.met.contains v.node then (l, [])
    else (⟨l.met.insert v.node, l.order⟩, [.again .leave, .children .enter])
  | .leave => (⟨l.met, l.order.push v.node⟩, [])

end Listing

namespace Graph

/-- The different nodes that are reached from a node, each parent before its children are met. -/
def reachable (g : Graph) (start : Handle) : Walked (Array Handle) :=
  (g.walk (1 + g.edges.length) start () Listing.preorderVisitor .empty).map Listing.order

/-- The different nodes that are reached from a node, children before parents. -/
def postorder (g : Graph) (start : Handle) : Walked (Array Handle) :=
  (g.walk (1 + g.edges.length + g.size) start .enter Listing.postorderVisitor .empty).map
    Listing.order

end Graph

end SharedExpr
