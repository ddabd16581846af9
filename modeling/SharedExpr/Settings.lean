import SharedExpr.Text.Blank
import SharedExpr.Trace.Sink

/-!
# Settings of a graph

A graph is opened with a sink for its trace messages and with a policy for defects. Settings are
made in a program, or read from two variables of an environment (`Settings.ofEnvironment`).

The environment is a function from names to values and the file system is a function from paths to
the reason why they cannot be opened, so that reading settings is a function of what it reads.
-/

namespace SharedExpr

/-- What a graph does after it told of a defect. -/
inductive Policy where
  /-- It records the defect and goes on. -/
  | report
  /-- It abandons the operation. -/
  | abort
deriving DecidableEq, Inhabited

/-- The name of a policy in accounts of settings. -/
def Policy.name : Policy → String
  | .report => "Report"
  | .abort => "Panic"

/-- With what a graph is opened. -/
structure Settings where
  /-- The receiver of trace messages. -/
  sink : Sink
  /-- What follows a defect. -/
  policy : Policy
deriving Inhabited

namespace Settings

/-- Nothing is traced and defects are recorded. -/
def standard : Settings :=
  ⟨.discarding, .report⟩

/-- A short account of settings. -/
def describe (s : Settings) : String :=
  "GraphConfig \x7b trace: " ++ s.sink.describe ++ ", defect_policy: " ++ s.policy.name ++ " \x7d"

/-! ## Settings from an environment -/

/-- The variable that names the trace file. -/
def traceVariable : String :=
  "EXPRGRAPH_ALLOC_TRACE"

/-- The variable that asks for the aborting policy. -/
def strictVariable : String :=
  "EXPRGRAPH_STRICT_REFCOUNT"

/-- The sink that a value of `traceVariable` asks for: none when it is missing or empty, standard
error for a dash, and otherwise a file, which has to be openable. -/
def sinkOf (refusal : String → Option String) : Option String → Except Fault Sink
  | none => .ok .discarding
  | some path =>
    if path = "" then .ok .discarding
    else if path = "-" then .ok (.ofDestination .standardError)
    else match refusal path with
      | none => .ok (.ofDestination (.file path))
      | some reason => .error (.traceUnavailable path reason)

/-- The values of `strictVariable` that ask for the aborting policy, blanks at the ends aside. -/
def affirmations : List String :=
  ["1", "true", "TRUE", "True"]

/-- The policy that a value of `strictVariable` asks for. -/
def policyOf : Option String → Policy
  | none => .report
  | some value => if Text.trimBlank value ∈ affirmations then .abort else .report

/-- The settings that an environment asks for. `refusal` tells for a path why it cannot be opened
for writing, if it cannot; that is asked first, so a bad path wins over any value of the other
variable. -/
def ofEnvironment (lookup : String → Option String) (refusal : String → Option String) :
    Except Fault Settings :=
  match sinkOf refusal (lookup traceVariable) with
  | .error fault => .error fault
  | .ok sink => .ok ⟨sink, policyOf (lookup strictVariable)⟩

/-- Settings are refused only for a trace file, with the path that was asked for. -/
theorem ofEnvironment_eq_error_iff {lookup refusal : String → Option String} {fault : Fault} :
    ofEnvironment lookup refusal = .error fault ↔
      ∃ path reason, lookup traceVariable = some path ∧ path ≠ "" ∧ path ≠ "-" ∧
        refusal path = some reason ∧ fault = .traceUnavailable path reason := by
  unfold ofEnvironment sinkOf
  constructor
  · intro h
    split at h
    · rename_i f hf
      split at hf
      · cases hf
      · rename_i path hp
        split at hf
        · cases hf
        · split at hf
          · cases hf
          · split at hf
            · cases hf
            · rename_i reason hr
              cases hf
              cases h
              exact ⟨path, reason, hp, by assumption, by assumption, hr, rfl⟩
    · cases h
  · rintro ⟨path, reason, hp, h₁, h₂, hr, rfl⟩
    simp [hp, h₁, h₂, hr]

end Settings

end SharedExpr
