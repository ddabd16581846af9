import SharedExpr.Handle
import SharedExpr.Operator

/-!
# Nodes of shared expressions

A node is the outermost form of an expression; the expressions below it are given by handles. The
same handle may occur in several nodes, and several times in one, which is what sharing means.

Besides the five shapes there is a uniform view: a node is its head, which is everything it says
about itself, and the list of its children. `Node.ext_head_children` says that the view loses
nothing, so whatever is defined over heads and children is defined over nodes.
-/

namespace SharedExpr

/-- The five shapes of a node. -/
inductive Kind where
  /-- An integer. -/
  | intLiteral
  /-- A comparison of two operands. -/
  | comparison
  /-- An arithmetic operator with its operands. -/
  | arithmetic
  /-- A use of a variable. -/
  | varUse
  /-- A call of a named function. -/
  | call
deriving DecidableEq, Inhabited

/-- Every kind, in the order in which they are listed to a user. -/
def Kind.all : List Kind :=
  [.intLiteral, .comparison, .arithmetic, .varUse, .call]

/-- The name of a kind in messages. -/
def Kind.name : Kind → String
  | .intLiteral => "IntLiteral"
  | .comparison => "Comparison"
  | .arithmetic => "Arithmetic"
  | .varUse => "VarUse"
  | .call => "Call"

/-- A node: one form whose operands are other nodes. -/
inductive Node where
  /-- An integer of 64 bits. -/
  | intLiteral (value : Int64)
  /-- A comparison of `left` with `right`. -/
  | comparison (op : Comparison) (left right : Handle)
  /-- An arithmetic operator over its operands, in order. -/
  | arithmetic (op : Arithmetic) (operands : List Handle)
  /-- A use of the variable `name`. -/
  | varUse (name : String)
  /-- A call of the function `callee` with its arguments, in order. -/
  | call (callee : String) (args : List Handle)
deriving DecidableEq, Inhabited

/-- What a node says apart from its children. -/
inductive Head where
  /-- An integer of 64 bits. -/
  | intLiteral (value : Int64)
  /-- A comparison. -/
  | comparison (op : Comparison)
  /-- An arithmetic operator. -/
  | arithmetic (op : Arithmetic)
  /-- A use of the variable `name`. -/
  | varUse (name : String)
  /-- A call of the function `callee`. -/
  | call (callee : String)
deriving DecidableEq, Inhabited

namespace Node

/-- The kind of a node. -/
def kind : Node → Kind
  | intLiteral _ => .intLiteral
  | comparison .. => .comparison
  | arithmetic .. => .arithmetic
  | varUse _ => .varUse
  | call .. => .call

/-- The head of a node. -/
def head : Node → Head
  | intLiteral value => .intLiteral value
  | comparison op _ _ => .comparison op
  | arithmetic op _ => .arithmetic op
  | varUse name => .varUse name
  | call callee _ => .call callee

/-- The children of a node in source order, one for each occurrence. -/
def children : Node → List Handle
  | intLiteral _ | varUse _ => []
  | comparison _ left right => [left, right]
  | arithmetic _ operands => operands
  | call _ args => args

/-- Whether a node is of a kind that never has children. -/
def isLeaf : Node → Bool
  | intLiteral _ | varUse _ => true
  | comparison .. | arithmetic .. | call .. => false

/-- The value of an integer. -/
def literal? : Node → Option Int64
  | intLiteral value => some value
  | _ => none

/-- The name of a variable or of a called function. -/
def name? : Node → Option String
  | varUse name => some name
  | call callee _ => some callee
  | _ => none

/-- The symbol of an operator. -/
def symbol? : Node → Option String
  | comparison op _ _ => some op.symbol
  | arithmetic op _ => some op.symbol
  | _ => none

/-- Head and children determine a node. -/
theorem ext_head_children {m n : Node} (hh : m.head = n.head) (hc : m.children = n.children) :
    m = n := by
  cases m <;> cases n <;> simp_all [head, children]

/-- A leaf has no children. -/
theorem children_of_isLeaf {n : Node} (h : n.isLeaf) : n.children = [] := by
  cases n <;> simp_all [isLeaf, children]

end Node

end SharedExpr
