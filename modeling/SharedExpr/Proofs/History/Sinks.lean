import SharedExpr.Print.Coloured
import SharedExpr.Proofs.History.Basic
import SharedExpr.Proofs.Print.Depth
import SharedExpr.Proofs.Release.Sinks
import SharedExpr.Proofs.Walk.Listing

/-!
# Tracing only observes

Two graphs that are equal but for their sinks cannot be told apart by what they do, whatever is
asked of them: not by outcomes, not by what they hold, and not by what can be read off them. And
what one sink gets is what another one gets, but for the messages below its level.

* `Graph.oblivious_perform`, `Graph.oblivious_performAll` — commands do not look at the sink.
* `Graph.ReadsAlike` — **whatever can be read off one graph can be read off the other**. This is so
  of graphs that are equal but for their sinks (`Graph.readsAlike_withSink`).
* `Graph.tracing_observes` — **a run with another sink is the same run, and a sink gets of the
  messages that one without a level would get those that are not below its level, in order**;
  `Graph.overheard_messages` shows one run to four sinks.
-/

namespace SharedExpr.Graph

open Std (HashSet)

variable {g k : Graph}

/-! ### Commands -/

/-- What is made of the outcome afterwards is the same with any sink. -/
theorem Oblivious.map {α β : Type} {f : Graph → α × Graph} (hf : Oblivious f g) (r : α → β) :
    Oblivious (fun g => (r (f g).1, (f g).2)) g := by
  obtain ⟨ms, hms⟩ := hf
  exact ⟨ms, fun s => by simp only [hms]⟩

/-- An outcome told as a reply is the same with any sink. -/
theorem Oblivious.replying {α : Type} {f : Graph → Outcome α × Graph} (hf : Oblivious f g)
    (reply : α → Reply) : Oblivious (fun g => replying reply (f g)) g :=
  hf.map (Outcome.map reply)

/-- No command looks at the sink. -/
theorem oblivious_perform (g : Graph) (c : Command) : Oblivious (fun g => g.perform c) g := by
  cases c using Command.byKind with
  | build c node hc =>
      simp only [perform_of_node? hc]
      exact (g.oblivious_build node).replying .node
  | increment h => exact (g.oblivious_increment h).replying .count
  | decrement h => exact (g.oblivious_decrement h).replying .count
  | root h => exact (g.oblivious_root h).replying .root
  | release r => exact (g.oblivious_release r).replying .reclaimed
  | takeDefects => exact g.oblivious_takeDefects.map (Outcome.done <| Reply.defects ·)

/-- What the first command offers a sink comes first, and the others find the sink so. -/
theorem oblivious_performAll (g : Graph) (cs : List Command) :
    Oblivious (fun g => g.performAll cs) g := by
  induction cs generalizing g with
  | nil => exact ⟨[], fun s => rfl⟩
  | cons c cs ih =>
      obtain ⟨ms, hms⟩ := g.oblivious_perform c
      obtain ⟨ms', hms'⟩ := ih (g.perform c).2
      refine ⟨ms ++ ms', fun s => ?_⟩
      simp only [performAll, hms, hms', List.foldl_append]

/-! ### What can be read off a graph -/

/-- Comparing pairs looks at nodes only. -/
theorem allSame_withSink (s t : Sink) (compared : HashSet (Handle × Handle))
    (pending : List (Handle × Handle)) :
    allSame (g.withSink s) (k.withSink t) compared pending = allSame g k compared pending := by
  induction compared, pending using allSame.induct g k with
  | case1 compared => rw [allSame, allSame]
  | case2 compared a b pending hc ih => rw [allSame, dif_pos hc, ih, allSame, dif_pos hc]
  | case3 compared a b pending hc m n hm hn hform ih =>
      have hm' : (g.withSink s).node? a = some m := hm
      have hn' : (k.withSink t).node? b = some n := hn
      rw [allSame_of_nodes hc hm' hn', if_pos hform, ih, allSame_of_nodes hc hm hn, if_pos hform]
  | case4 compared a b pending hc m n hm hn hform =>
      have hm' : (g.withSink s).node? a = some m := hm
      have hn' : (k.withSink t).node? b = some n := hn
      rw [allSame_of_nodes hc hm' hn', if_neg hform, allSame_of_nodes hc hm hn, if_neg hform]
  | case5 compared a b pending hc hnone =>
      have hnone' : ∀ m n, (g.withSink s).node? a = some m → (k.withSink t).node? b = some n →
          False := hnone
      rw [allSame_of_no_nodes hc hnone', allSame_of_no_nodes hc hnone]

/-- Whatever can be read off the second graph can be read off the first. -/
structure ReadsAlike (g k : Graph) : Prop where
  /-- The nodes with their counts and marks are the same, under the same handles. -/
  entry : ∀ h, k.get? h = g.get? h
  /-- They are listed in the same order, and so are the roots. -/
  listed : k.entries = g.entries ∧ k.roots = g.roots ∧ k.size = g.size
  /-- Identity and policy are the same. -/
  opened : k.id = g.id ∧ k.policy = g.policy
  /-- So are totals, defects and log records. -/
  kept : k.totals = g.totals ∧ k.defects = g.defects ∧ k.log = g.log
  /-- An audit finds the same. -/
  audited : k.audit = g.audit ∧ ∀ h, k.isUnreferenced h = g.isUnreferenced h
  /-- Expressions are the same as others, or not. -/
  compared : ∀ (l : Graph) (a b : Handle), k.sameExpression a l b = g.sameExpression a l b ∧
    l.sameExpression a k b = l.sameExpression a g b
  /-- They are printed in the same way. -/
  printed : ∀ width h, k.print width h = g.print width h ∧
    k.printColoured width h = g.printColoured width h
  /-- Walks go the same way. -/
  walked : ∀ (σ ι : Type) (visitor : Visitor σ ι) (fuel : ℕ) (start : Handle) (input : ι)
    (state : σ), k.walk fuel start input visitor state = g.walk fuel start input visitor state
  /-- So the listings are the same. -/
  listings : ∀ h, k.reachable h = g.reachable h ∧ k.postorder h = g.postorder h

/-- **A graph reads as it does with another sink.** -/
theorem readsAlike_withSink (g : Graph) (s : Sink) : g.ReadsAlike (g.withSink s) := by
  have hagree : ∀ h, g.AgreesBelow (g.withSink s) h := fun h l _ => rfl
  refine ⟨fun h => rfl, ⟨rfl, rfl, rfl⟩, ⟨rfl, rfl⟩, ⟨rfl, rfl, rfl⟩, ⟨rfl, fun h => rfl⟩,
    ?compared, ?printed,
    fun σ ι visitor fuel start input state => walk_of_agreesBelow (hagree start),
    fun h => ⟨reachable_of_agreesBelow (hagree h), postorder_of_agreesBelow (hagree h)⟩⟩
  case compared =>
    intro l a b
    exact ⟨allSame_withSink s l.sink _ _, allSame_withSink l.sink s _ _⟩
  case printed =>
    intro width h
    have hdoc := doc_of_agreesBelow (hagree h)
    refine ⟨?_, ?_⟩
    · rw [print, hdoc, print]
    · rw [printColoured, penCalls, hdoc, printColoured, penCalls]

/-! ### Runs with another sink -/

/-- What commands come to if a sink listens. -/
def heardBy (g : Graph) (s : Sink) (cs : List Command) : List (Outcome Reply) × Graph :=
  (g.withSink s).performAll cs

/-- **Tracing only observes.** Whatever is asked of two graphs that are equal but for their sinks,
all outcomes are the same, and so is the graph that is left but for its sink, so that nothing that
can be read off it differs. A sink that goes nowhere stays as it is; one with a level gets, of the
messages that a sink which takes every message gets in the same run, those that are not below its
level, in the same order. -/
theorem tracing_observes (g : Graph) (cs : List Command) :
    (∀ s t, (g.heardBy t cs).1 = (g.heardBy s cs).1 ∧
      (g.heardBy t cs).2 = (g.heardBy s cs).2.withSink (g.heardBy t cs).2.sink ∧
      (g.heardBy s cs).2.ReadsAlike (g.heardBy t cs).2) ∧
    (∀ level received, (g.heardBy ⟨none, level, received⟩ cs).2.sink = ⟨none, level, received⟩) ∧
    ∀ d e level received, (g.heardBy ⟨some d, level, received⟩ cs).2.sink =
      ⟨some d, level, received ++ (g.heardBy (.ofDestination e) cs).2.sink.received.filter
        fun m => level.rank ≤ m.level.rank⟩ := by
  obtain ⟨ms, hms⟩ := g.oblivious_performAll cs
  have hheard : ∀ s, g.heardBy s cs =
      ((g.performAll cs).1, (g.performAll cs).2.withSink (ms.foldl Sink.deliver s)) := hms
  refine ⟨fun s t => ?_, fun level received => ?_, fun d e level received => ?_⟩
  · rw [hheard, hheard]
    exact ⟨rfl, rfl, readsAlike_withSink ((g.performAll cs).2.withSink _) _⟩
  · rw [hheard]
    show ms.foldl Sink.deliver _ = _
    rw [Sink.foldl_deliver]
    simp [Sink.accepts, Sink.isInstalled]
  · rw [hheard, hheard]
    show ms.foldl Sink.deliver _ = _
    rw [Sink.foldl_deliver]
    have hall : ((g.performAll cs).2.withSink
        (ms.foldl Sink.deliver (.ofDestination e))).sink.received = ms.toArray := by
      show (ms.foldl Sink.deliver (.ofDestination e)).received = _
      rw [Sink.foldl_deliver]
      simp [Sink.ofDestination, Sink.accepts, Sink.isInstalled, Level.rank]
    rw [hall]
    simp [Sink.accepts, Sink.isInstalled]

/-- What a sink gets when a variable is added to itself and the sum gets a root, and then a
reference is taken from the sum that is not there. -/
def overheard (s : Sink) : Sink :=
  ((ofSettings ⟨1⟩ .standard).heardBy s [.varUse "x",
    .arithmetic .add [.ofSlot 1 0, .ofSlot 1 0], .root (.ofSlot 1 1),
    .decrement (.ofSlot 1 1)]).2.sink

/-- Of the six messages of this run, a sink that takes debug messages and what is more severe gets
four, in order: it is not told of the references. A sink for errors gets the last one, and one that
goes nowhere gets none. -/
theorem overheard_messages :
    (overheard (.ofDestination .memory)).received.toList.map (fun m => (m.level, m.event)) =
      [(.debug, .constructed (.ofSlot 1 0) .varUse),
        (.debug, .constructed (.ofSlot 1 1) .arithmetic),
        (.trace, .referenced (.ofSlot 1 0) 1), (.trace, .referenced (.ofSlot 1 0) 2),
        (.debug, .rooted (.ofSlot 1 1)), (.error, .defect (.ofSlot 1 1))] ∧
    (overheard ⟨some .memory, .debug, #[]⟩).received.toList.map Message.event =
      [.constructed (.ofSlot 1 0) .varUse, .constructed (.ofSlot 1 1) .arithmetic,
        .rooted (.ofSlot 1 1), .defect (.ofSlot 1 1)] ∧
    (overheard ⟨some .memory, .error, #[]⟩).received.toList.map Message.event =
      [.defect (.ofSlot 1 1)] ∧
    (overheard .discarding).received = #[] := by
  obtain ⟨-, hnowhere, hlevel⟩ := tracing_observes (ofSettings ⟨1⟩ .standard) [.varUse "x",
    .arithmetic .add [.ofSlot 1 0, .ofSlot 1 0], .root (.ofSlot 1 1), .decrement (.ofSlot 1 1)]
  refine ⟨by decide, ?debug, ?error, ?discarding⟩
  case debug =>
    rw [overheard, hlevel .memory .memory .debug #[], Array.toList_append, Array.toList_filter]
    decide
  case error =>
    rw [overheard, hlevel .memory .memory .error #[], Array.toList_append, Array.toList_filter]
    decide
  case discarding =>
    exact congrArg Sink.received (hnowhere .trace #[])

end SharedExpr.Graph
