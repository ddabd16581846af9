import SharedExpr.Trace.Message

/-!
# Sinks: where trace messages go

A sink has a destination, or none, and a least level. A message is delivered when there is a
destination and the message's level is not below the least one; anything else leaves the sink as
it is (`Sink.deliver_of_not_accepts`). What was delivered is kept in order, so the contents of a
trace file are a function of the sink (`Sink.contents`).

Nothing here depends on a graph, and nothing that a graph does depends on what a sink holds.
-/

namespace SharedExpr

/-- Where delivered messages go. -/
inductive Destination where
  /-- They are kept for the program to read. -/
  | memory
  /-- They are written to standard error. -/
  | standardError
  /-- They are written to the file at `path`. -/
  | file (path : String)
deriving DecidableEq, Inhabited

/-- A receiver of trace messages. -/
structure Sink where
  /-- Where messages go; `none` discards them all. -/
  destination : Option Destination
  /-- Messages below this level are dropped. -/
  minLevel : Level
  /-- The messages delivered so far, in order. -/
  received : Array Message
deriving Inhabited

namespace Sink

/-- The sink that discards every message. -/
def discarding : Sink :=
  ⟨none, .trace, #[]⟩

/-- The sink that delivers every message to a destination. -/
def ofDestination (destination : Destination) : Sink :=
  ⟨some destination, .trace, #[]⟩

/-- The same sink with another least level. -/
def withMinLevel (s : Sink) (level : Level) : Sink :=
  { s with minLevel := level }

/-- Whether messages have somewhere to go. -/
def isInstalled (s : Sink) : Bool :=
  s.destination.isSome

/-- Whether messages of a level are delivered. -/
def accepts (s : Sink) (level : Level) : Bool :=
  s.isInstalled && s.minLevel.rank ≤ level.rank

/-- The sink after it was offered a message. -/
@[inline] def deliver (s : Sink) (m : Message) : Sink :=
  if s.accepts m.level then { s with received := s.received.push m } else s

/-- The text that the delivered messages make in a file: a line for each, ended by a line feed. -/
def contents (s : Sink) : String :=
  s.received.foldl (fun text m => text ++ m.line ++ "\n") ""

/-- A short account of a sink. -/
def describe (s : Sink) : String :=
  "TraceSink \x7b enabled: " ++ (if s.isInstalled then "true" else "false") ++ ", min_level: " ++
    s.minLevel.name ++ " \x7d"

/-! ## Delivery -/

/-- A message whose level is accepted is received last. -/
theorem deliver_of_accepts {s : Sink} {m : Message} (h : s.accepts m.level) :
    s.deliver m = { s with received := s.received.push m } := by
  simp [deliver, h]

/-- A message whose level is not accepted is dropped. -/
theorem deliver_of_not_accepts {s : Sink} {m : Message} (h : ¬ s.accepts m.level) :
    s.deliver m = s := by
  simp [deliver, h]

/-- A message does not change what is accepted. -/
@[simp] theorem accepts_deliver (s : Sink) (m : Message) (level : Level) :
    (s.deliver m).accepts level = s.accepts level := by
  unfold deliver
  split <;> rfl

end Sink

end SharedExpr
