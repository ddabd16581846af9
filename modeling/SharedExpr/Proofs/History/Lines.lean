import SharedExpr.Proofs.Graph.Sinks
import SharedExpr.Proofs.History.Journal
import SharedExpr.Proofs.Trace.Sending

/-!
# A trace file can be read back

All that a graph sends in a history has words, so a line of a trace file says on its own which event
it is about, and a file holds as many lines as messages were delivered.

* `Graph.sends_perform`, `History.sends` — commands and histories send nothing without words.
* `History.lines_lossless` — **lines are told apart by level and event, have no line feed in them,
  and a file gives back all events in order**.
-/

namespace SharedExpr

/-- Whatever a command sends is worded. -/
theorem Graph.sends_perform (g : Graph) (c : Command) : g.Sends (g.perform c).2 := by
  induction c using Command.byKind with
  | build c node hc =>
      rw [perform_of_node? hc]
      exact g.sends_build node
  | increment h => exact g.sends_increment h
  | decrement h => exact g.sends_decrement h
  | root h => exact g.sends_root h
  | release r => exact g.sends_release r
  | takeDefects => exact .of_sink_eq rfl

namespace History

/-- Whatever a history sends is worded. -/
theorem sends (H : History) : (Graph.ofSettings H.id H.settings).Sends H.graph := by
  induction H using History.induction with
  | opened id settings => exact .refl _
  | andThen H c ih =>
      rw [graph_andThen]
      exact ih.trans (H.graph.sends_perform c)

/-- The messages of a history come after those that its sink had got before, and have words. -/
theorem messages_worded (H : History) :
    H.graph.sink.received.toList = H.settings.sink.received.toList ++ H.messages ∧
      ∀ m ∈ H.messages, ∃ ws, m.Worded ws := by
  obtain ⟨ms, hms, hsink⟩ := H.sends
  have hreceived : H.graph.sink.received.toList = H.settings.sink.received.toList ++
      ms.filter fun m => H.settings.sink.accepts m.level := by
    rw [hsink, Sink.foldl_deliver]
    simp [Graph.ofSettings]
  have hmessages : H.messages = ms.filter fun m => H.settings.sink.accepts m.level := by
    rw [messages, hreceived, List.drop_left' (Array.length_toList)]
  rw [hmessages]
  exact ⟨hreceived, fun m hm => hms m (List.mem_of_mem_filter hm)⟩

/-- **Trace lines lose nothing.** Two messages of any histories, of the same or of different graphs,
whose lines are equal have the same level and tell of the same event, of the same node and with the
same kind or count. No line has a line feed in it, whatever names the nodes have. So the lines of a
file that was empty when the graph was opened, read one by one, give the levels and the events of
all messages in order. -/
theorem lines_lossless (H : History) :
    (∀ K : History, ∀ m ∈ H.messages, ∀ m' ∈ K.messages, m.line = m'.line →
      m.level = m'.level ∧ m.event = m'.event) ∧
    (∀ m ∈ H.messages, '\n' ∉ m.line.toList) ∧
    (H.settings.sink.received = #[] →
      (Text.lines H.graph.sink.contents).map Message.read? =
        H.messages.map fun m => some (m.level, m.event)) := by
  obtain ⟨hreceived, hworded⟩ := H.messages_worded
  refine ⟨?apart, ?newline, ?file⟩
  case apart =>
    intro K m hm m' hm' hline
    obtain ⟨ws, hws⟩ := hworded m hm
    obtain ⟨ws', hws'⟩ := K.messages_worded.2 m' hm'
    have hread := hws.read?_line
    rw [hline, hws'.read?_line] at hread
    obtain ⟨hlevel, hevent⟩ := Prod.mk.inj (Option.some.inj hread)
    exact ⟨hlevel.symm, hevent.symm⟩
  case newline =>
    intro m hm
    obtain ⟨ws, hws⟩ := hworded m hm
    exact hws.newline_not_mem_line
  case file =>
    intro hempty
    rw [hempty, List.nil_append] at hreceived
    rw [Sink.contents_eq, hreceived, Message.map_read?_lines hworded]

/-- A call of a function with a strange name, traced to a file, until a reference is taken from it
that is not there. -/
def traced : History where
  id := ⟨1⟩
  settings := ⟨.ofDestination (.file "trace.log"), .report⟩
  commands := [.varUse "x", .call "f\nreleased" [.ofSlot 1 0], .root (.ofSlot 1 1),
    .decrement (.ofSlot 1 1)]

/-- The file gives the five events back. -/
theorem traced_lines :
    traced.settings.sink.received = #[] ∧
    (Text.lines traced.graph.sink.contents).map Message.read? =
      [some (.debug, .constructed (.ofSlot 1 0) .varUse),
        some (.debug, .constructed (.ofSlot 1 1) .call), some (.trace, .referenced (.ofSlot 1 0) 1),
        some (.debug, .rooted (.ofSlot 1 1)), some (.error, .defect (.ofSlot 1 1))] := by
  have hempty : traced.settings.sink.received = #[] := rfl
  obtain ⟨-, -, hfile⟩ := lines_lossless traced
  refine ⟨hempty, ?_⟩
  rw [hfile hempty]
  decide

end History

end SharedExpr
