import SharedExpr.Proofs.Text.Fields
import SharedExpr.Trace.Sink

/-!
# Reading trace lines

The wordings of the messages that graphs send are made of fixed words and of handles, names of kinds
and numbers, with single spaces between them. None of these has a space in it, so the words of a
line can be found again, and they say which event it tells of. The names that a user gives to
variables and functions are in no message.

* `Message.Worded` — the messages of graphs with the words that they are made of.
* `Event.ofFields?`, `Message.read?` — an event read from words; level and event read from a line.
* `Message.Worded.read?_line` — **a line of a message gives its level and its event back**.
* `Message.Worded.newline_not_mem_line` — **it has no line feed in it**, so the messages are found
  again in a file (`Message.map_read?_lines`), which is made of their lines (`Sink.contents_eq`).
-/

namespace SharedExpr

/-! ### Messages with their words -/

/-- The messages that graphs send, with the words that they are made of. -/
inductive Message.Worded : Message → List String → Prop
  /-- A node was added. -/
  | constructed (node : Handle) (kind : Kind) :
      Worded (.constructed node kind) ["constructed", kind.name, "node", node.text]
  /-- A node gained a reference. -/
  | referenced (node : Handle) (count : ℕ) :
      Worded (.referenced node count)
        ["reference", "to", "node", node.text, "added,", "count", "is", "now", Nat.repr count]
  /-- A node lost a reference. -/
  | dereferenced (node : Handle) (count : ℕ) :
      Worded (.dereferenced node count)
        ["reference", "to", "node", node.text, "dropped,", "count", "is", "now", Nat.repr count]
  /-- A node is held by a root. -/
  | rooted (node : Handle) : Worded (.rooted node) ["node", node.text, "rooted"]
  /-- A node lost its root and stays. -/
  | unrooted (node : Handle) (count : ℕ) :
      Worded (.unrooted node count) ["node", node.text, "unrooted,", "still", "referenced", "by",
        Nat.repr count, "parent", "edge(s)"]
  /-- A node was reclaimed. -/
  | released (node : Handle) (kind : Kind) :
      Worded (.released node kind) ["released", kind.name, "node", node.text]
  /-- A reference was to be taken from a node that has none. -/
  | underflow (node : Handle) (count : ℕ) :
      Worded (.defect node (.underflow node count)) ["Reference", "count", "of", "node", node.text,
        "would", "go", "negative", "(count", "is", Nat.repr count ++ ").", "A", "decrement", "was",
        "not", "paired", "with", "a", "construction", "edge."]
  /-- A child of a node is gone. -/
  | dangling (parent child : Handle) :
      Worded (.defect child (.danglingEdge parent child)) ["Node", parent.text, "references", "node",
        child.text ++ ",", "which", "is", "no", "longer", "live."]

/-! ### Reading -/

/-- The event that words tell of. -/
def Event.ofFields? : List String → Option Event
  | ["constructed", kind, "node", node] => do
    return .constructed (← Handle.read? node) (← Kind.read? kind)
  | ["reference", "to", "node", node, "added,", "count", "is", "now", count] => do
    return .referenced (← Handle.read? node) (← Text.number? count)
  | ["reference", "to", "node", node, "dropped,", "count", "is", "now", count] => do
    return .dereferenced (← Handle.read? node) (← Text.number? count)
  | ["node", node, "rooted"] => do
    return .rooted (← Handle.read? node)
  | "node" :: node :: "unrooted," :: "still" :: "referenced" :: "by" :: count :: _ => do
    return .unrooted (← Handle.read? node) (← Text.number? count)
  | ["released", kind, "node", node] => do
    return .released (← Handle.read? node) (← Kind.read? kind)
  | "Reference" :: "count" :: "of" :: "node" :: node :: _ => do
    return .defect (← Handle.read? node)
  | "Node" :: _ :: "references" :: "node" :: child :: _ => do
    return .defect (← Handle.read? child)
  | _ => none

/-- What stands in front of the wording of a message in a file. -/
def Level.mark (l : Level) : String :=
  "[" ++ Text.alignLeft 5 l.name ++ "] "

/-- The level that is marked so. -/
def Level.ofMark? (cs : List Char) : Option Level :=
  Level.all.find? fun l => l.mark.toList = cs

/-- The level and the event that a line of a file tells of. The mark of the level has eight
characters, whatever the level is. -/
def Message.read? (line : String) : Option (Level × Event) := do
  let level ← Level.ofMark? (line.toList.take 8)
  let event ← Event.ofFields? (Text.fields (String.ofList (line.toList.drop 8)))
  return (level, event)

/-- All marks are equally long. -/
@[simp] theorem Level.length_mark (l : Level) : l.mark.toList.length = 8 := by
  cases l <;> decide

/-- A level is read back from its mark. -/
@[simp] theorem Level.ofMark?_mark (l : Level) : Level.ofMark? l.mark.toList = some l := by
  cases l <;> decide

/-- A mark keeps to its line. -/
theorem Level.newline_not_mem_mark (l : Level) : '\n' ∉ l.mark.toList := by
  cases l <;> decide

namespace Message

variable {m : Message} {ws : List String}

/-- A line is a mark and a wording. -/
theorem line_eq (m : Message) : m.line = m.level.mark ++ m.text := rfl

/-- The wording of a message is its words, with spaces between them. -/
theorem Worded.text_eq (hm : m.Worded ws) : m.text = " ".intercalate ws := by
  have hunderflow : ∀ node count, (Fault.underflow node count).message =
      "Reference count of node " ++ node.text ++ " would go negative (count is " ++
        Nat.repr count ++ "). A decrement was not paired with a construction edge." :=
    fun _ _ => rfl
  have hdangling : ∀ parent child, (Fault.danglingEdge parent child).message =
      "Node " ++ parent.text ++ " references node " ++ child.text ++ ", which is no longer live." :=
    fun _ _ => rfl
  cases hm <;> simp only [Message.constructed, Message.referenced, Message.dereferenced,
    Message.rooted, Message.unrooted, Message.released, Message.defect, hunderflow, hdangling,
    String.intercalate_cons_cons, String.intercalate_singleton, ← String.append_assoc]
  all_goals simp only [String.append_assoc, String.reduceAppend]

/-- The words of a message are unbroken. -/
theorem Worded.unbroken (hm : m.Worded ws) : ∀ w ∈ ws, Text.Unbroken w := by
  cases hm <;> simp +decide [Text.unbroken_append]

/-- A wording has words. -/
theorem Worded.ne_nil (hm : m.Worded ws) : ws ≠ [] := by
  cases hm <;> exact List.cons_ne_nil _ _

/-- **The words say which event it is.** -/
theorem Worded.ofFields? (hm : m.Worded ws) : Event.ofFields? ws = some m.event := by
  cases hm with
  | dangling parent child =>
      -- a comma follows the handle
      have hchild : Handle.read? (child.text ++ ",") = some child := child.read?_text_append rfl
      simp [Event.ofFields?, Message.defect, hchild]
  | _ => simp [Event.ofFields?, Message.constructed, Message.referenced, Message.dereferenced,
      Message.rooted, Message.unrooted, Message.released, Message.defect]

/-- **A line gives level and event back.** -/
theorem Worded.read?_line (hm : m.Worded ws) : Message.read? m.line = some (m.level, m.event) := by
  have hmark : (m.level.mark ++ m.text).toList.take 8 = m.level.mark.toList := by
    rw [String.toList_append, List.take_left' m.level.length_mark]
  have htext : (m.level.mark ++ m.text).toList.drop 8 = m.text.toList := by
    rw [String.toList_append, List.drop_left' m.level.length_mark]
  have hfields : Text.fields m.text = ws := by
    rw [hm.text_eq, Text.fields_intercalate hm.unbroken hm.ne_nil]
  rw [read?, line_eq, hmark, htext, String.ofList_toList, Level.ofMark?_mark, hfields,
    hm.ofFields?]
  rfl

/-- **There is no line feed in a line.** -/
theorem Worded.newline_not_mem_line (hm : m.Worded ws) : '\n' ∉ m.line.toList := by
  rw [line_eq, String.toList_append, List.mem_append, hm.text_eq]
  exact not_or_intro m.level.newline_not_mem_mark (Text.newline_not_mem_intercalate hm.unbroken)

end Message

/-! ### Files -/

/-- What a sink makes in a file are the lines of its messages. -/
theorem Sink.contents_eq (s : Sink) :
    s.contents = Text.unlines (s.received.toList.map Message.line) := by
  have hfold : ∀ (ms : List Message) (text : String),
      ms.foldl (fun text m => text ++ m.line ++ "\n") text =
        text ++ Text.unlines (ms.map Message.line) := by
    intro ms
    induction ms with
    | nil => simp [Text.unlines]
    | cons m ms ih =>
        intro text
        rw [List.foldl_cons, ih]
        simp [Text.unlines, String.append_assoc]
  rw [contents, ← Array.foldl_toList, hfold, String.empty_append]

/-- **Messages are found again in a file.** -/
theorem Message.map_read?_lines {ms : List Message} (hms : ∀ m ∈ ms, ∃ ws, m.Worded ws) :
    (Text.lines (Text.unlines (ms.map Message.line))).map Message.read? =
      ms.map fun m => some (m.level, m.event) := by
  have hlines : ∀ l ∈ ms.map Message.line, '\n' ∉ l.toList := by
    intro l hl
    obtain ⟨m, hm, rfl⟩ := List.mem_map.1 hl
    obtain ⟨ws, hws⟩ := hms m hm
    exact hws.newline_not_mem_line
  rw [Text.lines_unlines hlines, List.map_map]
  apply List.map_congr_left
  intro m hm
  obtain ⟨ws, hws⟩ := hms m hm
  exact hws.read?_line

end SharedExpr
