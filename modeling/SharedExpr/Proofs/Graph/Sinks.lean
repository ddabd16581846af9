import SharedExpr.Proofs.Graph.Journal

/-!
# Sinks are told and never asked

A graph offers messages to its sink and does not look at it otherwise. So it may be given another
sink: what it does is the same, and the messages that it offers are the same too. Which of them a
sink keeps is up to the sink.

* `Sink.foldl_deliver` — **of the messages that it is offered a sink keeps those that it accepts**,
  in order; `Sink.offer_eq_deliver` — asking a second time when a message is handed over drops no
  more.
* `Graph.withSink` — a graph with another sink.
* `Graph.Oblivious` — an operation comes to the same whatever the sink is, and offers it the same
  messages. Constructions, single references and roots do (`Graph.oblivious_build` and so on).
-/

namespace SharedExpr

/-! ### What a sink keeps -/

namespace Sink

/-- **A sink keeps what it accepts.** -/
theorem foldl_deliver (ms : List Message) (s : Sink) : ms.foldl deliver s =
    { s with received := s.received ++ (ms.filter fun m => s.accepts m.level).toArray } := by
  induction ms generalizing s with
  | nil => simp
  | cons m ms ih =>
      have haccepts : ∀ level, (s.deliver m).accepts level = s.accepts level :=
        s.accepts_deliver m
      rw [List.foldl_cons, ih]
      simp only [haccepts]
      by_cases hm : s.accepts m.level
      · simp [deliver_of_accepts hm, hm]
      · simp [deliver_of_not_accepts hm, hm]

/-- A sink after a message was handed over, which looks at the level again. -/
def emit (s : Sink) (m : Message) : Sink :=
  match s.destination with
  | some _ => if s.minLevel.rank ≤ m.level.rank then { s with received := s.received.push m } else s
  | none => s

/-- A sink after an event: it is asked for the level first, so that nothing is worded in vain. -/
def offer (s : Sink) (m : Message) : Sink :=
  if s.accepts m.level then s.emit m else s

/-- **The two places at which messages are dropped agree.** -/
theorem offer_eq_deliver (s : Sink) (m : Message) : s.offer m = s.deliver m ∧
    s.emit m = s.deliver m := by
  obtain ⟨destination, minLevel, received⟩ := s
  cases destination with
  | none => exact ⟨rfl, rfl⟩
  | some destination =>
      by_cases hm : minLevel.rank ≤ m.level.rank
      · simp [offer, emit, deliver, accepts, isInstalled, hm]
      · simp [offer, emit, deliver, accepts, isInstalled, hm]

end Sink

/-! ### Another sink -/

namespace Graph

/-- The graph with another sink. -/
def withSink (g : Graph) (s : Sink) : Graph :=
  { g with sink := s }

/-- Another sink leaves the entries as they are. -/
@[simp] theorem get?_withSink (g : Graph) (s : Sink) (h : Handle) :
    (g.withSink s).get? h = g.get? h := rfl

/-- Another sink leaves the policy as it is. -/
@[simp] theorem policy_withSink (g : Graph) (s : Sink) : (g.withSink s).policy = g.policy := rfl

/-- Entries are changed in the same way with any sink. -/
theorem modify_withSink (g : Graph) (s : Sink) (h : Handle) (f : Entry → Entry) :
    (g.withSink s).modify h f = (g.modify h f).withSink s := by
  unfold modify withSink
  dsimp only
  split
  · split <;> rfl
  · rfl

/-- Nodes are removed in the same way with any sink. -/
theorem remove_withSink (g : Graph) (s : Sink) (h : Handle) :
    (g.withSink s).remove h = (g.remove h).withSink s := by
  unfold remove withSink
  dsimp only
  split
  · split <;> rfl
  · rfl

/-- Marks are set in the same way with any sink. -/
theorem setRooted_withSink (g : Graph) (s : Sink) (h : Handle) (rooted : Bool) :
    (g.withSink s).setRooted h rooted = (g.setRooted h rooted).withSink s :=
  g.modify_withSink s h _

/-! ### Changes that are told of -/

/-- A reference is added in the same way with any sink, which is told of it. -/
theorem raiseTo_withSink (g : Graph) (s : Sink) (h : Handle) (count : Count) :
    (g.withSink s).raiseTo h count =
      (g.raiseTo h count).withSink (s.deliver (.referenced h count.value)) := by
  rw [raiseTo, modify_withSink]
  rfl

/-- A reference is taken away in the same way with any sink, which is told of it. -/
theorem lowerTo_withSink (g : Graph) (s : Sink) (h : Handle) (count : Count) :
    (g.withSink s).lowerTo h count =
      (g.lowerTo h count).withSink (s.deliver (.dereferenced h count.value)) := by
  rw [lowerTo, modify_withSink]
  rfl

/-- A node is reclaimed in the same way with any sink, which is told of it. -/
theorem reclaim_withSink (g : Graph) (s : Sink) (h : Handle) (kind : Kind) :
    (g.withSink s).reclaim h kind =
      (g.reclaim h kind).withSink (s.deliver (.released h kind)) := by
  rw [reclaim, remove_withSink]
  rfl

/-- A defect is noted in the same way with any sink, which is told of it. -/
theorem note_withSink (g : Graph) (s : Sink) (h : Handle) (fault : Fault) :
    (g.withSink s).note h fault = (g.note h fault).withSink (s.deliver (.defect h fault)) := by
  rw [note_eq, note_eq]
  rfl

/-- A node is added in the same way with any sink, which is told of it. -/
theorem add_withSink (g : Graph) (s : Sink) (node : Node) :
    (g.withSink s).add node = ((g.add node).1,
      (g.add node).2.withSink (s.deliver (.constructed (g.add node).1 node.kind))) := rfl

/-! ### Operations -/

/-- The operation does not look at the sink: with any sink it comes to the same outcome and, but for
the sink, to the same graph, and the sink is offered the same messages. -/
def Oblivious {α : Type} (f : Graph → α × Graph) (g : Graph) : Prop :=
  ∃ ms : List Message, ∀ s : Sink,
    f (g.withSink s) = ((f g).1, (f g).2.withSink (ms.foldl Sink.deliver s))

/-- References are added in the same way with any sink, and it is offered the same messages. -/
theorem foldl_raise_withSink (hs : List Handle) (g : Graph) : ∃ ms : List Message, ∀ s : Sink,
    hs.foldl raise (g.withSink s) =
      (hs.foldl raise g).withSink (ms.foldl Sink.deliver s) := by
  induction hs generalizing g with
  | nil => exact ⟨[], fun s => rfl⟩
  | cons h hs ih =>
      obtain ⟨ms, hms⟩ := ih (g.raise h)
      rcases he : g.get? h with _ | e
      · have hraise : ∀ s, (g.withSink s).raise h = (g.raise h).withSink s := by
          intro s
          rw [raise, get?_withSink, raise, he]
        exact ⟨ms, fun s => by rw [List.foldl_cons, hraise, hms, List.foldl_cons]⟩
      · have hraise : ∀ s, (g.withSink s).raise h = (g.raise h).withSink
            (s.deliver (.referenced h e.count.increment.value)) := by
          intro s
          rw [raise, get?_withSink, raise, he]
          exact g.raiseTo_withSink s h _
        exact ⟨_ :: ms, fun s => by rw [List.foldl_cons, hraise, hms, List.foldl_cons,
          List.foldl_cons]⟩

/-- A construction does not look at the sink. -/
theorem oblivious_build (g : Graph) (node : Node) : Oblivious (fun g => g.build node) g := by
  have hfind : ∀ s, node.children.find? (fun c => !(g.withSink s).contains c) =
      node.children.find? fun c => !g.contains c := fun s => rfl
  rcases hmissing : node.children.find? (fun c => !g.contains c) with _ | missing
  · obtain ⟨ms, hms⟩ := foldl_raise_withSink node.children (g.add node).2
    refine ⟨.constructed (g.add node).1 node.kind :: ms, fun s => ?_⟩
    simp only [build, hfind, hmissing, add_withSink, hms]
    rfl
  · refine ⟨[], fun s => ?_⟩
    simp only [build, hfind, hmissing]
    rfl

/-- Adding a reference does not look at the sink. -/
theorem oblivious_increment (g : Graph) (h : Handle) :
    Oblivious (fun g => g.increment h) g := by
  rcases he : g.get? h with _ | e
  · refine ⟨[], fun s => ?_⟩
    simp only [increment, get?_withSink, he]
    rfl
  · refine ⟨[.referenced h e.count.increment.value], fun s => ?_⟩
    simp only [increment, get?_withSink, he, raiseTo_withSink]
    rfl

/-- Taking a reference away does not look at the sink. -/
theorem oblivious_decrement (g : Graph) (h : Handle) :
    Oblivious (fun g => g.decrement h) g := by
  rcases he : g.get? h with _ | e
  · refine ⟨[], fun s => ?_⟩
    simp only [decrement, get?_withSink, he]
    rfl
  · rcases hc : e.count.decrement? with _ | count
    · refine ⟨[.defect h (.underflow h e.count.value)], fun s => ?_⟩
      simp only [decrement, get?_withSink, he, hc, note_withSink, verdict, policy_withSink]
      rfl
    · refine ⟨[.dereferenced h count.value], fun s => ?_⟩
      simp only [decrement, get?_withSink, he, hc, lowerTo_withSink]
      rfl

/-- Marking a root does not look at the sink. -/
theorem oblivious_root (g : Graph) (h : Handle) : Oblivious (fun g => g.root h) g := by
  rcases he : g.get? h with _ | e
  · refine ⟨[], fun s => ?_⟩
    simp only [root, get?_withSink, he]
    rfl
  · by_cases hroot : e.rooted
    · refine ⟨[], fun s => ?_⟩
      simp only [root, get?_withSink, he, hroot]
      rfl
    · refine ⟨[.rooted h], fun s => ?_⟩
      simp only [root, get?_withSink, he, hroot, setRooted_withSink]
      rfl

/-- Taking the defects does not look at the sink, and tells it nothing. -/
theorem oblivious_takeDefects (g : Graph) : Oblivious takeDefects g :=
  ⟨[], fun _ => rfl⟩

end Graph

end SharedExpr
