import SharedExpr.Graph.Basic
import SharedExpr.Walk.Agenda

/-!
# Walks: visits that schedule visits

A walk begins with one visit and makes the visits on its agenda until none is left. A visitor sees
the visit and the node, keeps a state of its own and answers with requests: visit this child next,
visit that one last, come back to this node, forget what is pending. Which nodes are visited, how
often and in which order is therefore the visitor's choice, and a node that two parents schedule is
visited twice.

* `Visitor`, `Request` — a visitor is a function from its state, a visit and a node to a new state
  and requests, so what a walk does is a function of what it reads.
* `Visit.schedule` — what a request does to the agenda.
* `Graph.walk` — the walk. A visitor can keep a walk going for ever, so a walk is given a number of
  visits that it may make (`fuel`), and running out of it is an ending of its own. More fuel changes
  nothing else (`Graph.walkOn_mono`).
* A walk that meets a handle that is not live ends with a fault that names the edge
  (`Visit.fault`); one that starts there makes no visit (`Graph.walk_of_not_contains`).
-/

namespace SharedExpr

/-- A visit that is made or to be made. -/
structure Visit (ι : Type) where
  /-- The node to visit. -/
  node : Handle
  /-- The node whose visit asked for this one; the first visit has none. -/
  parent : Option Handle
  /-- What is handed to the visitor. -/
  input : ι
deriving DecidableEq, Inhabited

/-- What a visitor asks for. Positions count the children of the visited node from zero; a request
for a position without a child asks for nothing. -/
inductive Request (ι : Type) where
  /-- Visit the child at `position` before everything that is pending. -/
  | immediate (position : Nat) (input : ι)
  /-- Visit the child at `position` after everything that is pending. -/
  | deferred (position : Nat) (input : ι)
  /-- Visit all children, in source order, before everything that is pending. -/
  | children (input : ι)
  /-- Visit this node again before everything that is pending. -/
  | again (input : ι)
  /-- Forget everything that is pending, if there is a child at `position`. -/
  | forget (position : Nat)
deriving DecidableEq

/-- A visitor: from its state, a visit and the visited node to a new state and requests. -/
abbrev Visitor (σ ι : Type) : Type :=
  σ → Visit ι → Node → σ × List (Request ι)

/-- How a walk ends. -/
inductive Ending where
  /-- Nothing was left to visit. -/
  | finished
  /-- The next visit was of a node that is not live. -/
  | failed (fault : Fault)
  /-- There was more to visit than was allowed. -/
  | outOfFuel
deriving DecidableEq, Inhabited

/-- A walk that has ended. -/
structure Walked (σ : Type) where
  /-- The state of the visitor at the end. -/
  state : σ
  /-- The number of visits made. -/
  visits : Nat
  /-- How the walk ended. -/
  ending : Ending
deriving Inhabited

namespace Walked

/-- The same walk with what is read off the visitor's state. -/
def map {σ τ : Type} (f : σ → τ) (w : Walked σ) : Walked τ where
  state := f w.state
  visits := w.visits
  ending := w.ending

end Walked

namespace Visit

variable {ι : Type}

/-- The visit of a child of the visited node. -/
def toChild (v : Visit ι) (child : Handle) (input : ι) : Visit ι :=
  ⟨child, some v.node, input⟩

/-- The agenda after a request that was made during a visit. -/
def schedule (v : Visit ι) (n : Node) (a : Agenda (Visit ι)) : Request ι → Agenda (Visit ι)
  | .immediate position input =>
    match n.children[position]? with
    | some child => a.pushFront (v.toChild child input)
    | none => a
  | .deferred position input =>
    match n.children[position]? with
    | some child => a.pushBack (v.toChild child input)
    | none => a
  | .children input => n.children.foldr (fun child a => a.pushFront (v.toChild child input)) a
  | .again input => a.pushFront ⟨v.node, v.parent, input⟩
  | .forget position => if position < n.children.length then .empty else a

/-- What is wrong with a visit of a node that is not live. -/
def fault (v : Visit ι) : Fault :=
  match v.parent with
  | some parent => .danglingEdge parent v.node
  | none => .unknownNode v.node

/-- All children of a node are put in front of what is pending. -/
theorem toList_schedule_children (v : Visit ι) (n : Node) (a : Agenda (Visit ι)) (input : ι) :
    (v.schedule n a (.children input)).toList =
      n.children.map (fun child => v.toChild child input) ++ a.toList := by
  simp only [schedule]
  induction n.children with
  | nil => rfl
  | cons c cs ih => simp [ih]

end Visit

namespace Graph

variable {σ ι : Type}

/-- The rest of a walk that has an agenda, a number of visits behind it and a state. -/
def walkOn (g : Graph) (visitor : Visitor σ ι) :
    (fuel : Nat) → Agenda (Visit ι) → (visits : Nat) → σ → Walked σ
  | 0, agenda, visits, state =>
    match agenda.pop? with
    | none => ⟨state, visits, .finished⟩
    | some _ => ⟨state, visits, .outOfFuel⟩
  | fuel + 1, agenda, visits, state =>
    match agenda.pop? with
    | none => ⟨state, visits, .finished⟩
    | some (v, agenda) =>
      match g.node? v.node with
      | none => ⟨state, visits, .failed v.fault⟩
      | some n =>
        let (state, requests) := visitor state v n
        walkOn g visitor fuel (requests.foldl (v.schedule n) agenda) (visits + 1) state

/-- The walk of a visitor that starts in a state, at a node and with an input. -/
def walk (g : Graph) (fuel : Nat) (start : Handle) (input : ι) (visitor : Visitor σ ι)
    (state : σ) : Walked σ :=
  walkOn g visitor fuel (Agenda.empty.pushFront ⟨start, none, input⟩) 0 state

/-- A walk that starts at a node that is not live makes no visit. -/
theorem walk_of_not_contains {g : Graph} {start : Handle} (h : ¬ g.contains start) (fuel : Nat)
    (input : ι) (visitor : Visitor σ ι) (state : σ) :
    g.walk (fuel + 1) start input visitor state = ⟨state, 0, .failed (.unknownNode start)⟩ := by
  have : g.node? start = none := by simpa [contains, node?] using h
  simp [walk, walkOn, Agenda.pushFront, Agenda.pop?, this, Visit.fault]

/-- More fuel does not change a walk that ended without running out. -/
theorem walkOn_mono (g : Graph) (visitor : Visitor σ ι) {fuel more : Nat} (hle : fuel ≤ more)
    (agenda : Agenda (Visit ι)) (visits : Nat) (state : σ)
    (h : (walkOn g visitor fuel agenda visits state).ending ≠ .outOfFuel) :
    walkOn g visitor more agenda visits state = walkOn g visitor fuel agenda visits state := by
  induction fuel generalizing more agenda visits state with
  | zero =>
    unfold walkOn at h
    cases hp : agenda.pop? with
    | none => cases more <;> simp [walkOn, hp]
    | some p => simp [hp] at h
  | succ fuel ih =>
    obtain ⟨more, rfl⟩ : ∃ m, more = m + 1 := ⟨more - 1, by omega⟩
    simp only [walkOn] at h ⊢
    split
    · rfl
    · rename_i v rest hp
      simp only [hp] at h
      split
      · rfl
      · rename_i n hn
        simp only [hn] at h
        exact ih (by omega) _ _ _ h

end Graph

end SharedExpr
