import SharedExpr.Proofs.Release.Journal
import SharedExpr.Proofs.Trace.Reading

/-!
# What graphs send

Every change of a graph sends at most one message, and each of these messages has its words: a node
is told of by its handle and its kind, a count by its number, a defect by what was noticed. In
particular no message holds anything that a user may choose, such as the name of a variable.

* `Graph.Sends` — one graph is what another one has become, and all that it sent in between has
  words.
* `Graph.sends_build`, `Graph.sends_increment`, `Graph.sends_decrement`, `Graph.sends_root`,
  `Graph.sends_release` — **so it is with every operation**, whatever comes of it.
-/

namespace SharedExpr

/-- All that was sent from the one graph to the other has words. -/
def Graph.Sends (a b : Graph) : Prop :=
  ∃ ms : List Message, (∀ m ∈ ms, ∃ ws, m.Worded ws) ∧ b.sink = ms.foldl Sink.deliver a.sink

namespace Graph

variable {a b c g : Graph} {m : Message} {ws : List String} {h : Handle} {fault : Fault}

/-! ### Putting together -/

/-- Nothing was sent. -/
theorem Sends.of_sink_eq (hsink : b.sink = a.sink) : a.Sends b :=
  ⟨[], by simp, hsink⟩

/-- A graph that was left alone has sent nothing. -/
theorem Sends.refl (g : Graph) : g.Sends g :=
  .of_sink_eq rfl

/-- What is sent first and what is sent then is sent in a row. -/
theorem Sends.trans (hab : a.Sends b) (hbc : b.Sends c) : a.Sends c := by
  obtain ⟨ms, hms, hb⟩ := hab
  obtain ⟨ms', hms', hc⟩ := hbc
  exact ⟨ms ++ ms', List.forall_mem_append.2 ⟨hms, hms'⟩, by rw [hc, hb, List.foldl_append]⟩

/-- One message was sent. -/
theorem Sends.of_worded (hm : m.Worded ws) (hsink : b.sink = a.sink.deliver m) : a.Sends b :=
  ⟨[m], by simpa using ⟨ws, hm⟩, hsink⟩

/-! ### One change -/

/-- The message of a new node is worded. -/
theorem sends_add (g : Graph) (node : Node) : g.Sends (g.add node).2 :=
  .of_worded (.constructed (g.add node).1 node.kind) rfl

/-- The message of a reference that is added is worded. -/
theorem sends_raiseTo (g : Graph) (h : Handle) (count : Count) : g.Sends (g.raiseTo h count) :=
  .of_worded (.referenced h count.value) (congrArg (Sink.deliver · _) (g.sink_modify h _))

/-- The message of a reference that is taken away is worded. -/
theorem sends_lowerTo (g : Graph) (h : Handle) (count : Count) : g.Sends (g.lowerTo h count) :=
  .of_worded (.dereferenced h count.value) (congrArg (Sink.deliver · _) (g.sink_modify h _))

/-- A mark is set without a message. -/
theorem sends_setRooted (g : Graph) (h : Handle) (rooted : Bool) : g.Sends (g.setRooted h rooted) :=
  .of_sink_eq (g.sink_modify h _)

/-- A worded message can be sent. -/
theorem sends_tell (g : Graph) (hm : m.Worded ws) : g.Sends (g.tell m) :=
  .of_worded hm rfl

/-- The message of a node that is reclaimed is worded. -/
theorem sends_reclaim (g : Graph) (h : Handle) (kind : Kind) : g.Sends (g.reclaim h kind) := by
  obtain ⟨store, hs⟩ := g.exists_reclaim h kind
  exact .of_worded (.released h kind) (by rw [hs])

/-- The message of a defect is worded if the wording of the defect is. -/
theorem sends_note (g : Graph) (hm : (Message.defect h fault).Worded ws) :
    g.Sends (g.note h fault) :=
  .of_worded hm (by rw [note_eq])

/-- What is noticed at an edge has words. -/
theorem worded_of_edgeFate {parent child : Handle}
    (hf : g.edgeFate parent child = .defective fault) :
    ∃ ws, (Message.defect child fault).Worded ws := by
  rcases of_edgeFate_eq_defective hf with ⟨-, rfl⟩ | ⟨e, -, -, rfl⟩
  · exact ⟨_, .dangling parent child⟩
  · exact ⟨_, .underflow child 0⟩

/-! ### Operations -/

/-- A reference more sends at most its message. -/
theorem sends_raise (g : Graph) (h : Handle) : g.Sends (g.raise h) := by
  unfold raise
  split
  · exact g.sends_raiseTo h _
  · exact .refl g

/-- References that are added send their messages one by one. -/
theorem sends_foldl_raise (hs : List Handle) (g : Graph) : g.Sends (hs.foldl raise g) := by
  induction hs generalizing g with
  | nil => exact .refl g
  | cons h hs ih => exact (g.sends_raise h).trans (ih (g.raise h))

/-- A construction sends worded messages only. -/
theorem sends_build (g : Graph) (node : Node) : g.Sends (g.build node).2 := by
  have hb := g.build_built node
  generalize g.build node = result at hb
  cases hb with
  | refused => exact .refl g
  | done => exact (g.sends_add node).trans (sends_foldl_raise node.children _)

/-- A direct reference sends worded messages only. -/
theorem sends_increment (g : Graph) (h : Handle) : g.Sends (g.increment h).2 := by
  rcases g.increment_cases h with ⟨fault, hinc⟩ | ⟨-, n, hinc⟩
  · rw [hinc]
    exact .refl g
  · rw [hinc]
    exact g.sends_raise h

/-- A reference taken directly sends worded messages only. -/
theorem sends_decrement (g : Graph) (h : Handle) : g.Sends (g.decrement h).2 := by
  unfold decrement
  split
  · exact .refl g
  · split
    · exact g.sends_lowerTo h _
    · exact g.sends_note (.underflow h _)

/-- A root sends worded messages only. -/
theorem sends_root (g : Graph) (h : Handle) : g.Sends (g.root h).2 := by
  unfold root
  split
  · exact .refl g
  · split
    · exact .refl g
    · exact (g.sends_setRooted h true).trans (sends_tell _ (.rooted h))

end Graph

/-! ### Releases -/

/-- Every move of a cascade sends one message, or none if a handle is skipped. -/
theorem Cascade.Move.sends {c d : Cascade} (hm : Move c d) : c.graph.Sends d.graph := by
  cases hm with
  | lower => exact Graph.sends_lowerTo _ _ _
  | defect hf _ =>
      obtain ⟨ws, hws⟩ := Graph.worded_of_edgeFate hf
      exact Graph.sends_note _ hws
  | reclaim => exact Graph.sends_reclaim _ _ _
  | skip _ => exact .refl _

/-- A cascade sends worded messages only. -/
theorem Cascade.Moves.sends {c d : Cascade} (hm : Moves c d) : c.graph.Sends d.graph :=
  hm.keep (P := fun d => c.graph.Sends d.graph) (fun hc hd => hc.trans hd.sends) (.refl _)

namespace Graph

/-- **A release sends nothing without words**, whether it is carried through or abandoned. -/
theorem sends_release (g : Graph) (r : Root) : g.Sends (g.release r).2 := by
  have hunroot : g.Sends (g.unroot r.node) := g.sends_setRooted r.node false
  have hrel := g.release_released r
  generalize g.release r = result at hrel
  cases hrel with
  | refused => exact .refl g
  | unrooted => exact hunroot.trans (sends_tell _ (.unrooted r.node _))
  | reclaimed _ _ _ hm => exact (hunroot.trans hm.sends).trans (.of_sink_eq rfl)
  | aborted _ _ _ hm _ _ hf =>
      obtain ⟨ws, hws⟩ := worded_of_edgeFate hf
      exact (hunroot.trans hm.sends).trans (sends_note _ hws)

end Graph

end SharedExpr
