import SharedExpr.Fault

/-!
# Outcomes of operations

An operation on a graph is done, or refused, or abandoned. A refusal is an answer: the caller goes
on with the graph. An abandonment is the aborting policy at work: the operation stopped where a
defect was noticed, and what it had changed until then stays changed.
-/

namespace SharedExpr

/-- What an operation comes to. -/
inductive Outcome (α : Type) where
  /-- It was carried out, with a result. -/
  | done (result : α)
  /-- It was refused. -/
  | refused (fault : Fault)
  /-- It was abandoned when a defect was noticed. -/
  | aborted (fault : Fault)
deriving DecidableEq, Inhabited

namespace Outcome

variable {α β : Type}

/-- The outcome with its result, if there is one, mapped. -/
def map (f : α → β) : Outcome α → Outcome β
  | done a => done (f a)
  | refused fault => refused fault
  | aborted fault => aborted fault

end Outcome

end SharedExpr
