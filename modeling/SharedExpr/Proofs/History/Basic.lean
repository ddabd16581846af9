import Mathlib.Data.List.Induction
import SharedExpr.Command
import SharedExpr.Proofs.Lists

/-!
# Histories of a graph

A history says how a graph was opened and what was asked of it since, refusals included. The graph
at its end is what the commands made of it, and what is true "at every point of a run" is a
statement about every history in its past.

* `History.graph`, `History.past` — where a history has got to, and all the points on the way;
  `History.steps` — these points with the commands that came next.
* `History.transcript` — the commands with their outcomes; whatever depends on what a user saw is
  read off it.
* `History.held` — the roots that were taken and not given up since.
* `History.raised`, `History.lowered` — how often a reference to a node was added, or taken away,
  by a command of its own.
* `History.induction` — what holds of a graph that was just opened, and with each command that is
  added, holds of every history.

Scope: the roots that a user gives up are any roots. That only held ones are of use is shown in
`SharedExpr.Proofs.History.Roots`.
-/

namespace SharedExpr

/-! ### Commands by what they do -/

namespace Command

/-- The node that a command asks to be built. -/
def node? : Command → Option Node
  | .intLiteral value => some (.intLiteral value)
  | .varUse name => some (.varUse name)
  | .comparison op left right => some (.comparison op left right)
  | .arithmetic op operands => some (.arithmetic op operands)
  | .call callee args => some (.call callee args)
  | _ => none

/-- Whether the command adds or takes away a reference without an operand occurrence. -/
def countsDirectly : Command → Bool
  | .increment _ | .decrement _ => true
  | _ => false

/-- The node from which a command takes a reference. -/
def decremented? : Command → Option Handle
  | .decrement h => some h
  | _ => none

/-- The five commands that build a node are alike. -/
@[elab_as_elim]
theorem byKind {P : Command → Prop} (build : ∀ c node, c.node? = some node → P c)
    (increment : ∀ h, P (.increment h)) (decrement : ∀ h, P (.decrement h))
    (root : ∀ h, P (.root h)) (release : ∀ r, P (.release r)) (takeDefects : P .takeDefects)
    (c : Command) : P c := by
  cases c with
  | increment h => exact increment h
  | decrement h => exact decrement h
  | root h => exact root h
  | release r => exact release r
  | takeDefects => exact takeDefects
  | _ => exact build _ _ rfl

/-- A construction adds and takes away no reference directly. -/
theorem countsDirectly_of_node? {c : Command} {node : Node} (hc : c.node? = some node) :
    c.countsDirectly = false := by
  cases c <;> simp_all [node?, countsDirectly]

end Command

/-- The commands that build are constructions of the node that they ask for. -/
theorem Graph.perform_of_node? {c : Command} {node : Node} (hc : c.node? = some node)
    (g : Graph) : g.perform c = replying .node (g.build node) := by
  cases c <;> cases hc <;> rfl

/-- The handle of the first node in a slot. -/
def Handle.ofSlot (graph slot : ℕ) : Handle :=
  ⟨⟨graph⟩, some ⟨slot, 0⟩⟩

/-! ### Histories -/

/-- How a graph was opened, and what was asked of it since. -/
structure History where
  /-- The identity of the graph. -/
  id : GraphId
  /-- The settings with which it was opened. -/
  settings : Settings
  /-- What was asked of it, in order. -/
  commands : List Command

namespace History

variable {H K L : History} {c : Command} {h : Handle} {r : Root}

/-- The graph at the end. -/
def graph (H : History) : Graph :=
  ((Graph.ofSettings H.id H.settings).performAll H.commands).2

/-- The commands with their outcomes, in order. -/
def transcript (H : History) : List (Command × Outcome Reply) :=
  H.commands.zip ((Graph.ofSettings H.id H.settings).performAll H.commands).1

/-- The history with one more command. -/
def andThen (H : History) (c : Command) : History :=
  { H with commands := H.commands ++ [c] }

/-- Every point of the run, from the opening of the graph to its end. -/
def past (H : History) : List History :=
  H.commands.inits.map fun cs => { H with commands := cs }

/-- Histories grow by one command at a time. -/
@[elab_as_elim]
theorem induction {P : History → Prop} (opened : ∀ id settings, P ⟨id, settings, []⟩)
    (andThen : ∀ H c, P H → P (H.andThen c)) (H : History) : P H := by
  obtain ⟨id, settings, commands⟩ := H
  induction commands using List.reverseRecOn with
  | nil => exact opened id settings
  | append_singleton cs c ih => exact andThen ⟨id, settings, cs⟩ c ih

/-- Every command has an outcome. -/
theorem length_performAll (g : Graph) (cs : List Command) :
    (g.performAll cs).1.length = cs.length := by
  induction cs generalizing g with
  | nil => rfl
  | cons c cs ih => simp [Graph.performAll, ih]

/-- The last command is carried out on the graph that the others left. -/
theorem graph_andThen : (H.andThen c).graph = (H.graph.perform c).2 := by
  unfold graph andThen
  rw [Graph.performAll_append]
  rfl

/-- The last command is written down with its outcome. -/
theorem transcript_andThen :
    (H.andThen c).transcript = H.transcript ++ [(c, (H.graph.perform c).1)] := by
  unfold transcript andThen graph
  rw [Graph.performAll_append, List.zip_append (length_performAll _ _).symm]
  rfl

/-- A graph that was just opened has no nodes. -/
theorem get?_opened (id : GraphId) (settings : Settings) (h : Handle) :
    (⟨id, settings, []⟩ : History).graph.get? h = none := by
  show (if h.graph = id then h.key.bind Store.empty.get? else none) = none
  by_cases hid : h.graph = id
  · rw [if_pos hid]
    cases h.key <;> rfl
  · rw [if_neg hid]

/-! ### Points of a run -/

/-- The points of a run are the histories that begin in the same way. -/
theorem mem_past_iff :
    K ∈ H.past ↔ K.id = H.id ∧ K.settings = H.settings ∧ K.commands <+: H.commands := by
  obtain ⟨id, settings, commands⟩ := K
  simp only [past, List.mem_map, List.mem_inits, History.mk.injEq]
  constructor
  · rintro ⟨cs, hcs, rfl, rfl, rfl⟩
    exact ⟨rfl, rfl, hcs⟩
  · rintro ⟨rfl, rfl, hcs⟩
    exact ⟨commands, hcs, rfl, rfl, rfl⟩

/-- The end of a run is one of its points. -/
theorem self_mem_past (H : History) : H ∈ H.past :=
  mem_past_iff.2 ⟨rfl, rfl, List.prefix_rfl⟩

/-- A point of an earlier part of a run is a point of the run. -/
theorem past_trans (hL : L ∈ K.past) (hK : K ∈ H.past) : L ∈ H.past := by
  obtain ⟨hi, hs, hc⟩ := mem_past_iff.1 hL
  obtain ⟨hi', hs', hc'⟩ := mem_past_iff.1 hK
  exact mem_past_iff.2 ⟨hi.trans hi', hs.trans hs', hc.trans hc'⟩

/-- A run passes the point before its last command. -/
theorem mem_past_andThen : H ∈ (H.andThen c).past :=
  mem_past_iff.2 ⟨rfl, rfl, List.prefix_append _ _⟩

/-- What holds at every point of a longer run holds at every point of a shorter one. -/
theorem forall_past_of_andThen {P : History → Prop} (hP : ∀ K ∈ (H.andThen c).past, P K) :
    ∀ K ∈ H.past, P K :=
  fun _ hK => hP _ (past_trans hK mem_past_andThen)

/-- The points of a longer run are those of the run before, and its end. -/
theorem past_andThen (H : History) (c : Command) :
    (H.andThen c).past = H.past ++ [H.andThen c] := by
  simp [past, andThen, List.inits_append]

/-- The points of the run, but for its end, each with the command that came next. -/
def steps (H : History) : List (History × Command) :=
  H.past.zip H.commands

/-- The last step leads from the history before to its command. -/
theorem steps_andThen (H : History) (c : Command) :
    (H.andThen c).steps = H.steps ++ [(H, c)] := by
  simp only [steps, past, andThen, List.zip_map_left, zip_inits_concat, List.map_append]
  rfl

/-! ### Roots that are held -/

/-- The roots held after a command, given those held before it. A root that is given up is gone,
whatever comes of it. -/
def heldAfter (held : List Root) : Command × Outcome Reply → List Root
  | (.root _, .done (.root r)) => r :: held
  | (.release r, _) => held.erase r
  | _ => held

/-- The roots that were taken and not given up since. -/
def held (H : History) : List Root :=
  H.transcript.foldl heldAfter []

/-- What is held after the last command is decided by what was held before and by this command. -/
theorem held_andThen : (H.andThen c).held = heldAfter H.held (c, (H.graph.perform c).1) := by
  rw [held, transcript_andThen, List.foldl_append]
  rfl

/-! ### References added and taken away directly -/

/-- Whether a command added a reference to a node. -/
def raises (h : Handle) : Command × Outcome Reply → Bool
  | (.increment l, .done _) => l = h
  | _ => false

/-- Whether a command took a reference from a node. -/
def lowers (h : Handle) : Command × Outcome Reply → Bool
  | (.decrement l, .done _) => l = h
  | _ => false

/-- How often a reference to the node was added directly. -/
def raised (H : History) (h : Handle) : ℕ :=
  H.transcript.countP (raises h)

/-- How often a reference to the node was taken away directly. -/
def lowered (H : History) (h : Handle) : ℕ :=
  H.transcript.countP (lowers h)

/-- The last command adds a reference to the node, or does not. -/
theorem raised_andThen : (H.andThen c).raised h =
    H.raised h + if raises h (c, (H.graph.perform c).1) then 1 else 0 := by
  rw [raised, transcript_andThen, List.countP_append, List.countP_singleton]
  rfl

/-- The last command takes a reference from the node, or does not. -/
theorem lowered_andThen : (H.andThen c).lowered h =
    H.lowered h + if lowers h (c, (H.graph.perform c).1) then 1 else 0 := by
  rw [lowered, transcript_andThen, List.countP_append, List.countP_singleton]
  rfl

end History

end SharedExpr
