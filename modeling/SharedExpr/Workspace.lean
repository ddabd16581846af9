import SharedExpr.Command

/-!
# Workspaces: several graphs side by side

A workspace opens graphs and gives each an identity of its own, in ascending order. A graph is
then addressed by its position; a command goes to one graph and leaves the others alone
(`Workspace.getElem?_apply`).
-/

namespace SharedExpr

/-- Graphs with different identities. -/
structure Workspace where
  /-- The number of the graph that is opened next. -/
  next : Nat
  /-- The graphs opened so far. -/
  graphs : Array Graph
deriving Inhabited

namespace Workspace

/-- The workspace without graphs whose first graph will have a given number. -/
def startingAt (first : Nat) : Workspace :=
  ⟨first, #[]⟩

/-- The workspace with one more graph, at the end. -/
def addGraph (w : Workspace) (settings : Settings) : Workspace where
  next := w.next + 1
  graphs := w.graphs.push (.ofSettings ⟨w.next⟩ settings)

/-- The graph at a position, and the graphs with a blank in its place. A graph that is taken out
before it is changed is not copied. -/
@[noinline] def takeOut (graphs : Array Graph) (i : Nat) (h : i < graphs.size) :
    Graph × Array Graph :=
  (graphs[i], graphs.set i (.ofSettings ⟨0⟩ .standard))

/-- Lets one graph change; the result is what comes besides the changed graph. -/
def apply {α : Type} (w : Workspace) (i : Nat) (f : Graph → α × Graph) : Option (α × Workspace) :=
  match w with
  | ⟨next, graphs⟩ =>
    if h : i < graphs.size then
      let (g, graphs) := takeOut graphs i h
      let (a, g) := f g
      some (a, ⟨next, graphs.setIfInBounds i g⟩)
    else none

/-- Carries out a command in one graph. -/
def perform (w : Workspace) (i : Nat) (c : Command) : Option (Outcome Reply × Workspace) :=
  w.apply i fun g => g.perform c

/-- An operation is carried out on a graph that is there, and leaves its result in the graph's
place. -/
theorem apply_eq_some_iff {α : Type} {w w' : Workspace} {i : Nat} {f : Graph → α × Graph} {a : α} :
    w.apply i f = some (a, w') ↔
      ∃ g, w.graphs[i]? = some g ∧ a = (f g).1 ∧
        w' = { w with graphs := w.graphs.setIfInBounds i (f g).2 } := by
  obtain ⟨next, graphs⟩ := w
  unfold apply
  dsimp only
  split
  · rename_i h
    simp only [takeOut, Option.some.injEq, Prod.mk.injEq, Array.getElem?_eq_getElem h]
    constructor
    · rintro ⟨rfl, rfl⟩
      refine ⟨_, rfl, rfl, ?_⟩
      simp [Array.setIfInBounds, h]
    · rintro ⟨g, rfl, rfl, rfl⟩
      refine ⟨rfl, ?_⟩
      simp [Array.setIfInBounds, h]
  · rename_i h
    simp [Array.getElem?_eq_none (Nat.not_lt.1 h)]

/-- A change of one graph leaves the others alone. -/
theorem getElem?_apply {α : Type} {w w' : Workspace} {i j : Nat} {f : Graph → α × Graph} {a : α}
    (h : w.apply i f = some (a, w')) (hij : i ≠ j) : w'.graphs[j]? = w.graphs[j]? := by
  obtain ⟨g, -, -, rfl⟩ := apply_eq_some_iff.1 h
  simp [hij]

end Workspace

end SharedExpr
