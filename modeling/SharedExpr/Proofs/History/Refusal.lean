import SharedExpr.Proofs.Graph.Construction
import SharedExpr.Proofs.History.Expressions
import SharedExpr.Proofs.Lists
import SharedExpr.Proofs.Release.Basic

/-!
# Refusals leave no trace

A refusal is an answer and nothing else. That is easy to see where a command looks up its node
before it changes anything. A construction does more: it adds a node and then counts its operands
one by one, and each of these steps could be refused in the middle. None is, because the operands
were looked up before, and neither the new node nor a count that was raised makes a live operand
another one.

* `Graph.buildStepwise` — a construction as the steps that it consists of, up to the first one that
  is refused. `Graph.buildStepwise_eq_build` — after the operands were looked up none is.
* `Command.named` — the nodes that a command is about.
* `Graph.Refused`, `Graph.perform_refused` — what can be refused, and what it leaves behind: the
  graph as it was, or in one case a defect that was noticed.
* `Graph.perform_atomic` — **what a command does not carry out it does not begin**.
* `History.graph_unrefused` — a history is as if nothing had been asked that was refused.
-/

namespace SharedExpr

namespace Command

/-- The nodes that a command is about, in the order in which they are given. -/
def named : Command → List Handle
  | .intLiteral _ | .varUse _ | .takeDefects => []
  | .comparison _ left right => [left, right]
  | .arithmetic _ operands => operands
  | .call _ args => args
  | .increment node | .decrement node | .root node => [node]
  | .release r => [r.node]

/-- A construction names the operands of its node. -/
theorem named_of_node? {c : Command} {node : Node} (hc : c.node? = some node) :
    c.named = node.children := by
  cases c <;> cases hc <;> rfl

end Command

namespace Graph

variable {g : Graph} {c : Command} {node : Node} {h l : Handle} {hs : List Handle} {fault : Fault}

/-! ### Constructions step by step -/

/-- One more reference to each of the nodes in turn. The first one that is refused is the last. -/
def incrementAll (g : Graph) : List Handle → Outcome Unit × Graph
  | [] => (.done (), g)
  | h :: hs =>
    match g.increment h with
    | (.done _, g) => g.incrementAll hs
    | (.refused fault, g) => (.refused fault, g)
    | (.aborted fault, g) => (.aborted fault, g)

/-- One more reference for each operand occurrence of a node, which is looked up. -/
def referenceChildren (g : Graph) (parent : Handle) : Outcome Unit × Graph :=
  match g.node? parent with
  | some node => g.incrementAll node.children
  | none => (.refused (.unknownNode parent), g)

/-- A construction as the steps that it consists of: the operands are looked up, the node is added,
its operands are counted. The first step that is refused is the last, and what was done before it
stays done. -/
def buildStepwise (g : Graph) (node : Node) : Outcome Handle × Graph :=
  match node.children.find? fun c => !g.contains c with
  | some missing => (.refused (.unknownNode missing), g)
  | none =>
    let (h, g) := g.add node
    match g.referenceChildren h with
    | (.done (), g) => (.done h, g)
    | (.refused fault, g) => (.refused fault, g)
    | (.aborted fault, g) => (.aborted fault, g)

/-- A reference more takes no life. -/
theorem contains_raise (g : Graph) (h l : Handle) : (g.raise h).contains l = g.contains l :=
  contains_congr (node?_raise g h l)

/-- What is live stays live when a node is added. -/
theorem contains_add (hl : g.contains l) (node : Node) : (g.add node).2.contains l := by
  obtain ⟨n, hn⟩ := contains_iff_node?.1 hl
  rw [contains_iff_node?, node?_add]
  split
  · exact ⟨node, rfl⟩
  · exact ⟨n, hn⟩

/-- A reference to a live node is not refused. -/
theorem increment_of_contains (hh : g.contains h) : ∃ n, g.increment h = (.done n, g.raise h) := by
  obtain ⟨e, he⟩ := contains_iff.1 hh
  exact ⟨_, by rw [increment, raise, he]⟩

/-- No reference to a live node is refused, and a raised count leaves the other nodes live. -/
theorem incrementAll_of_live (hlive : ∀ x ∈ hs, g.contains x) :
    g.incrementAll hs = (.done (), hs.foldl raise g) := by
  induction hs generalizing g with
  | nil => rfl
  | cons h hs ih =>
      obtain ⟨hh, hlive⟩ := List.forall_mem_cons.1 hlive
      obtain ⟨n, hn⟩ := increment_of_contains hh
      have hlive' : ∀ x ∈ hs, (g.raise h).contains x := by
        intro x hx
        rw [contains_raise]
        exact hlive x hx
      rw [incrementAll, hn]
      exact ih hlive'

/-- The operands of a new node are counted if they were live before. -/
theorem referenceChildren_add (hlive : ∀ x ∈ node.children, g.contains x) :
    (g.add node).2.referenceChildren (g.add node).1 =
      (.done (), node.children.foldl raise (g.add node).2) := by
  have hnode : (g.add node).2.node? (g.add node).1 = some node := by rw [node?_add, if_pos rfl]
  rw [referenceChildren, hnode]
  exact incrementAll_of_live fun x hx => contains_add (hlive x hx) node

/-- **After the operands were looked up no step of a construction is refused.** -/
theorem buildStepwise_eq_build (g : Graph) (node : Node) : g.buildStepwise node = g.build node := by
  rw [buildStepwise, build]
  cases hfind : node.children.find? fun c => !g.contains c with
  | some missing => rfl
  | none =>
      have hlive : ∀ x ∈ node.children, g.contains x := by
        intro x hx
        simpa using List.find?_eq_none.1 hfind x hx
      simp only [referenceChildren_add hlive]

/-! ### What is refused -/

/-- What is refused when a command is, and the graph that is left. -/
inductive Refused (g : Graph) (c : Command) : Fault → Graph → Prop
  /-- A node that the command is about is not live, or a root is given up that nobody holds. -/
  | unknown {h : Handle} (hh : h ∈ c.named) : Refused g c (.unknownNode h) g
  /-- A root is asked for where there is one. -/
  | rooted {h : Handle} (hc : c = .root h) : Refused g c (.alreadyRooted h) g
  /-- A reference is to be taken from a node without references. The defect is told of. -/
  | underflow {h : Handle} (hc : c = .decrement h) :
      Refused g c (.underflow h 0) { g with
        sink := g.sink.deliver (.defect h (.underflow h 0))
        log := g.log.push ⟨.error, (Fault.underflow h 0).message⟩
        defects := g.defects.push (.underflow h 0) }

/-- A defect that is noticed under the reporting policy, in all that it changes. -/
theorem note_of_report (hpolicy : g.policy = .report) (h : Handle) (fault : Fault) :
    g.note h fault = { g with
      sink := g.sink.deliver (.defect h fault)
      log := g.log.push ⟨.error, fault.message⟩
      defects := g.defects.push fault } := by
  obtain ⟨id, store, policy, sink, defects, totals, log⟩ := g
  cases hpolicy
  rfl

/-- A construction is refused for an operand that is not live, and changes nothing. -/
theorem build_refused (hc : c.node? = some node) (hr : (g.build node).1 = .refused fault) :
    Refused g c fault (g.build node).2 := by
  obtain ⟨missing, hfind, rfl⟩ := build_fst_eq_refused_iff.1 hr
  rw [build_snd_of_refused hr]
  apply Refused.unknown
  rw [Command.named_of_node? hc]
  exact List.mem_of_find?_eq_some hfind

/-- Taking a reference away is refused for a node that is not live, or noted as an underflow. -/
theorem decrement_refused (hr : (g.decrement h).1 = .refused fault) :
    Refused g (.decrement h) fault (g.decrement h).2 := by
  unfold decrement at hr ⊢
  split at hr
  · cases hr
    exact .unknown List.mem_cons_self
  · rename_i e he
    split at hr
    · cases hr
    · rename_i hnone
      rw [Count.decrement?_eq_none_iff.1 hnone] at hr ⊢
      unfold verdict at hr
      split at hr
      · rename_i hpolicy
        cases hr
        dsimp only
        rw [note_of_report hpolicy]
        exact .underflow rfl
      · cases hr

/-- A root is refused for a node that is not live or is rooted, and changes nothing. -/
theorem root_refused (hr : (g.root h).1 = .refused fault) :
    Refused g (.root h) fault (g.root h).2 := by
  unfold root at hr ⊢
  split at hr
  · cases hr
    exact .unknown List.mem_cons_self
  · split at hr
    · rename_i hrooted
      cases hr
      simp only [hrooted, ↓reduceIte]
      exact .rooted rfl
    · cases hr

/-- A release is refused for a node that no root holds, and changes nothing. -/
theorem release_refused {r : Root} (hr : (g.release r).1 = .refused fault) :
    Refused g (.release r) fault (g.release r).2 := by
  have hrel := g.release_released r
  generalize g.release r = result at hrel hr
  cases hrel with
  | refused =>
      cases hr
      exact .unknown List.mem_cons_self
  | unrooted | reclaimed | aborted => cases hr

/-- A refusal told as a reply is a refusal. -/
theorem replying_refused {α : Type} {reply : α → Reply} {r : Outcome α × Graph}
    (hr : (replying reply r).1 = .refused fault) : r.1 = .refused fault := by
  obtain ⟨outcome, G⟩ := r
  cases outcome <;> cases hr
  rfl

/-- **There are no other refusals.** -/
theorem perform_refused (hr : (g.perform c).1 = .refused fault) :
    Refused g c fault (g.perform c).2 := by
  cases c using Command.byKind with
  | build c node hc =>
      rw [perform_of_node? hc] at hr ⊢
      exact build_refused hc (replying_refused hr)
  | increment h =>
      have hr' : (g.increment h).1 = .refused fault := replying_refused hr
      show Refused g (.increment h) fault (g.increment h).2
      unfold increment at hr' ⊢
      split at hr'
      · cases hr'
      · cases hr'
        exact .unknown List.mem_cons_self
  | decrement h => exact decrement_refused (replying_refused hr)
  | root h => exact root_refused (replying_refused hr)
  | release r => exact release_refused (replying_refused hr)
  | takeDefects => cases hr

/-! ### What is not known -/

/-- The first node of a command that is not live is what the command is refused for. -/
theorem perform_of_find? (hfind : c.named.find? (fun h => !g.contains h) = some l) :
    g.perform c = (.refused (.unknownNode l), g) := by
  have hone : ∀ h, [h].find? (fun h => !g.contains h) = some l → h = l ∧ g.get? l = none := by
    intro h hh
    obtain rfl := List.mem_singleton.1 (List.mem_of_find?_eq_some hh)
    have hdead := List.find?_some hh
    rw [contains, Bool.not_eq_true', Option.isSome_eq_false_iff, Option.isNone_iff_eq_none] at hdead
    exact ⟨rfl, hdead⟩
  cases c using Command.byKind with
  | build c node hc =>
      rw [Command.named_of_node? hc] at hfind
      rw [perform_of_node? hc, build, hfind]
      rfl
  | increment h =>
      obtain ⟨rfl, hnone⟩ := hone h hfind
      rw [perform, increment, hnone]
      rfl
  | decrement h =>
      obtain ⟨rfl, hnone⟩ := hone h hfind
      rw [perform, decrement, hnone]
      rfl
  | root h =>
      obtain ⟨rfl, hnone⟩ := hone h hfind
      rw [perform, root, hnone]
      rfl
  | release r =>
      obtain ⟨hr, hnone⟩ := hone r.node hfind
      rw [perform, release, hr, hnone]
      rfl
  | takeDefects => cases hfind

/-- What is named and not live has a first one. -/
theorem exists_find?_of_mem (hl : l ∈ hs) (hdead : ¬ g.contains l) :
    ∃ x, hs.find? (fun h => !g.contains h) = some x ∧ x ∈ hs ∧ ¬ g.contains x := by
  have hsome : (hs.find? fun h => !g.contains h).isSome := by
    rw [List.find?_isSome]
    exact ⟨l, hl, by simpa using hdead⟩
  obtain ⟨x, hx⟩ := Option.isSome_iff_exists.1 hsome
  exact ⟨x, hx, List.mem_of_find?_eq_some hx, by simpa using List.find?_some hx⟩

/-- Handles of other graphs are not live. -/
theorem not_contains_of_foreign (hl : l.graph ≠ g.id) : ¬ g.contains l := by
  rw [contains, get?_of_foreign (.inl hl)]
  simp

/-- The question whether a node is unreferenced is refused exactly for a node that is not live. -/
theorem isUnreferenced_eq_refused_iff :
    g.isUnreferenced h = .refused fault ↔ ¬ g.contains h ∧ fault = .unknownNode h := by
  unfold isUnreferenced contains
  split
  · rename_i e he
    simp [he]
  · rename_i he
    simp [he, eq_comm]

/-! ### Nothing is begun that is not carried out -/

/-- What is true of a command that is not carried out. -/
structure Atomic (g : Graph) (c : Command) : Prop where
  /-- A node that is not known, or a root that is asked for twice, leaves the graph as it was: its
  nodes, counts and roots, its totals, its defects, what it has told, and what comes next. -/
  unchanged : ∀ h, (g.perform c).1 = .refused (.unknownNode h) ∨
    (g.perform c).1 = .refused (.alreadyRooted h) → (g.perform c).2 = g
  /-- A reference that cannot be taken is told of and recorded, and nothing else happens. -/
  told : ∀ h n, (g.perform c).1 = .refused (.underflow h n) → n = 0 ∧ (g.perform c).2 = { g with
    sink := g.sink.deliver (.defect h (.underflow h 0))
    log := g.log.push ⟨.error, (Fault.underflow h 0).message⟩
    defects := g.defects.push (.underflow h 0) }
  /-- There is no other refusal. -/
  only : ∀ fault, (g.perform c).1 = .refused fault →
    ∃ h, fault = .unknownNode h ∨ fault = .alreadyRooted h ∨ fault = .underflow h 0
  /-- A construction is refused exactly if an operand is not live. It names the first one. -/
  first : ∀ node fault, c.node? = some node → ((g.perform c).1 = .refused fault ↔
    ∃ xs x ys, node.children = xs ++ x :: ys ∧ (∀ y ∈ xs, g.contains y) ∧ ¬ g.contains x ∧
      fault = .unknownNode x)
  /-- If all operands are live, the node is added and all of its operands are counted. -/
  whole : ∀ node, c.node? = some node → (∀ x ∈ node.children, g.contains x) →
    (g.perform c).1 = .done (.node (g.add node).1) ∧
      (g.add node).2.referenceChildren (g.add node).1 = (.done (), (g.perform c).2)
  /-- So a construction is the same as its steps, each of which might have been refused. -/
  stepwise : ∀ node, c.node? = some node → g.perform c = replying .node (g.buildStepwise node)
  /-- A command that names a handle of another graph is refused, and leaves the graph as it was. -/
  foreign : ∀ h ∈ c.named, h.graph ≠ g.id →
    ∃ x ∈ c.named, ¬ g.contains x ∧ g.perform c = (.refused (.unknownNode x), g)

/-- **What a command does not carry out it does not begin**, on every graph and whatever handles the
command names; and asking whether a node is unreferenced is refused exactly if it is not live. -/
theorem perform_atomic (g : Graph) (c : Command) :
    g.Atomic c ∧ (∀ h fault, g.isUnreferenced h = .refused fault ↔
      ¬ g.contains h ∧ fault = .unknownNode h) ∧
    ∀ h, h.graph ≠ g.id → g.isUnreferenced h = .refused (.unknownNode h) := by
  refine ⟨⟨?unchanged, ?told, ?only, ?first, ?whole, ?stepwise, ?foreign⟩,
    fun h fault => isUnreferenced_eq_refused_iff,
    fun h hh => isUnreferenced_eq_refused_iff.2 ⟨not_contains_of_foreign hh, rfl⟩⟩
  case unchanged =>
    rintro h (hr | hr)
    all_goals
      have hrefused := perform_refused hr
      generalize (g.perform c).2 = G at hrefused ⊢
      cases hrefused
      rfl
  case told =>
    intro h n hr
    have hrefused := perform_refused hr
    generalize (g.perform c).2 = G at hrefused ⊢
    cases hrefused
    exact ⟨rfl, rfl⟩
  case only =>
    intro fault hr
    have hrefused := perform_refused hr
    generalize (g.perform c).2 = G at hrefused
    cases hrefused with
    | @unknown h => exact ⟨h, .inl rfl⟩
    | @rooted h => exact ⟨h, .inr (.inl rfl)⟩
    | @underflow h => exact ⟨h, .inr (.inr rfl)⟩
  case first =>
    intro node fault hc
    rw [perform_of_node? hc]
    constructor
    · intro hr
      obtain ⟨x, hfind, rfl⟩ := build_fst_eq_refused_iff.1 (replying_refused hr)
      obtain ⟨xs, ys, hsplit, hxs, hx⟩ := find?_not_eq_some_iff.1 hfind
      exact ⟨xs, x, ys, hsplit, hxs, hx, rfl⟩
    · rintro ⟨xs, x, ys, hsplit, hxs, hx, rfl⟩
      rw [build, find?_not_eq_some_iff.2 ⟨xs, ys, hsplit, hxs, hx⟩]
      rfl
  case whole =>
    intro node hc hlive
    rw [referenceChildren_add hlive, perform_of_node? hc]
    have hnone : node.children.find? (fun c => !g.contains c) = none := by
      rw [List.find?_eq_none]
      intro x hx
      simpa using hlive x hx
    rw [build, hnone]
    exact ⟨rfl, rfl⟩
  case stepwise =>
    intro node hc
    rw [perform_of_node? hc, buildStepwise_eq_build]
  case foreign =>
    intro h hh hforeign
    obtain ⟨x, hfind, hx, hdead⟩ := exists_find?_of_mem hh (not_contains_of_foreign hforeign)
    exact ⟨x, hx, hdead, perform_of_find? hfind⟩

/-- A comparison of a live node with a handle of another graph is refused for that handle, and a
reference can be taken from the number of a sum twice, but not a third time. -/
theorem doubled_atomic :
    History.doubled.graph.perform (.comparison .lt (.ofSlot 1 0) (.ofSlot 2 0)) =
      (.refused (.unknownNode (.ofSlot 2 0)), History.doubled.graph) ∧
    (((History.doubled.andThen (.decrement (.ofSlot 1 0))).andThen
      (.decrement (.ofSlot 1 0))).graph.perform (.decrement (.ofSlot 1 0))).2.defects =
      #[.underflow (.ofSlot 1 0) 0] := by
  constructor
  · obtain ⟨x, hx, hdead, hperform⟩ := (perform_atomic History.doubled.graph
      (.comparison .lt (.ofSlot 1 0) (.ofSlot 2 0))).1.foreign (.ofSlot 2 0) (by decide) (by decide)
    rcases List.mem_pair.1 hx with rfl | rfl
    · exact absurd (by decide) hdead
    · exact hperform
  · have hrefused : (((History.doubled.andThen (.decrement (.ofSlot 1 0))).andThen
        (.decrement (.ofSlot 1 0))).graph.perform (.decrement (.ofSlot 1 0))).1 =
          .refused (.underflow (.ofSlot 1 0) 0) := by decide
    rw [((perform_atomic _ _).1.told _ _ hrefused).2]
    decide

end Graph

/-! ### Histories without what was refused -/

/-- Whether a refusal changes nothing, not even what was told. -/
def Outcome.isTraceless {α : Type} : Outcome α → Bool
  | .refused (.unknownNode _) | .refused (.alreadyRooted _) => true
  | _ => false

namespace History

variable {H : History} {c : Command}

/-- A command that leaves no trace leaves the graph as it was. -/
theorem graph_andThen_of_isTraceless (hc : (H.graph.perform c).1.isTraceless) :
    (H.andThen c).graph = H.graph := by
  rw [graph_andThen]
  cases hr : (H.graph.perform c).1 with
  | refused fault =>
      have hrefused := Graph.perform_refused hr
      generalize (H.graph.perform c).2 = G at hrefused ⊢
      rw [hr] at hc
      cases hrefused with
      | unknown | rooted => rfl
      | underflow => cases hc
  | done | aborted =>
      rw [hr] at hc
      cases hc

/-- The history without the commands that were refused and left no trace. -/
def unrefused (H : History) : History :=
  { H with commands := (H.transcript.filter fun p => !p.2.isTraceless).map Prod.fst }

/-- The last command is left out if it was refused without a trace. -/
theorem unrefused_andThen : (H.andThen c).unrefused =
    if (H.graph.perform c).1.isTraceless then H.unrefused else H.unrefused.andThen c := by
  rw [unrefused, transcript_andThen, List.filter_append, List.map_append]
  cases hc : (H.graph.perform c).1.isTraceless <;> simp [hc, unrefused, andThen]

/-- **A history is as if nothing had been asked that was refused.** -/
theorem graph_unrefused (H : History) : H.unrefused.graph = H.graph := by
  induction H using History.induction with
  | opened id settings => rfl
  | andThen H c ih =>
      rw [unrefused_andThen]
      split
      · rename_i hc
        rw [ih, graph_andThen_of_isTraceless hc]
      · rw [graph_andThen, graph_andThen, ih]

end History

end SharedExpr
