import Mathlib.Data.Nat.Notation
import SharedExpr.Print.Coloured

/-!
# Documents with marks

A pen that can change its appearance takes one on where a mark begins, and goes back to the
appearance of the terminal where a mark ends. When it begins to print a marked part it does not know
where the part will end, so the end is put among the tasks behind it. Going back does not restore
what an enclosing mark asked for: of marks inside of marks only the innermost would be seen, and
only up to its end.

* `MarkedDoc`, `MarkedDoc.calls` — documents any part of which can be marked, and the calls that
  print them.
* `Doc.marked` — a document in which each text is marked with its style, and nothing else.
* `MarkedDoc.calls_marked` — **its calls are those of the pieces of the document, one after the
  other**. So the marks are not inside of one another on their way to the pen either, whatever lines
  end.
-/

namespace SharedExpr

/-! ### Marks anywhere -/

/-- Text with places where a line may end, and with marks. -/
inductive MarkedDoc where
  /-- No text. -/
  | empty
  /-- A text that is never broken. -/
  | text (content : String)
  /-- A space, or the end of a line. -/
  | line
  /-- One document after another. -/
  | append (first second : MarkedDoc)
  /-- A document whose lines are indented by `columns` more. -/
  | nest (columns : ℕ) (body : MarkedDoc)
  /-- A document whose lines end together or not at all, inner groups aside. -/
  | group (body : MarkedDoc)
  /-- A document that is to look like a style. -/
  | mark (style : Style) (body : MarkedDoc)

namespace MarkedDoc

/-- The number of parts of a document and of the ends of its marks. -/
def weight : MarkedDoc → ℕ
  | empty | text _ | line => 1
  | append first second => first.weight + second.weight + 1
  | nest _ body | group body => body.weight + 1
  | mark _ body => body.weight + 2

/-- What is to be done: print a part, or leave the mark that a part was in. -/
inductive Task where
  /-- Print a part, with the indentation of the lines that follow and with its mode. -/
  | part (indent : ℕ) (mode : Mode) (doc : MarkedDoc)
  /-- Leave a mark. -/
  | leave

/-- The number of parts and ends of a task. -/
def Task.weight : Task → ℕ
  | part _ _ doc => doc.weight
  | leave => 1

/-- The number of parts and ends of all tasks. -/
def weights (tasks : List Task) : ℕ :=
  tasks.foldr (fun task n => task.weight + n) 0

/-- The work on tasks is that on the first one and on the rest. -/
theorem weights_cons (task : Task) (tasks : List Task) :
    weights (task :: tasks) = task.weight + weights tasks := by
  simp [weights]

/-- Whether what the tasks print keeps within the width up to the first line that ends. Marks have
no width. -/
def fits (width column : ℕ) (tasks : List Task) : Bool :=
  match tasks with
  | [] => true
  | .leave :: rest => fits width column rest
  | .part indent mode doc :: rest =>
    match doc, mode with
    | .empty, _ => fits width column rest
    | .text content, _ =>
      let column := column + Text.width content
      if column ≤ width then fits width column rest else false
    | .line, .flat => if column + 1 ≤ width then fits width (column + 1) rest else false
    | .line, .broken => true
    | .append first second, mode =>
      fits width column (.part indent mode first :: .part indent mode second :: rest)
    | .nest n body, mode => fits width column (.part (indent + n) mode body :: rest)
    | .group body, mode => fits width column (.part indent mode body :: rest)
    | .mark _ body, mode => fits width column (.part indent mode body :: .leave :: rest)
termination_by weights tasks
decreasing_by
  all_goals
    simp only [weights_cons, Task.weight, MarkedDoc.weight]
    omega

/-- The calls that do the tasks from a column on. -/
def run (width column : ℕ) (tasks : List Task) : List PenCall :=
  match tasks with
  | [] => []
  | .leave :: rest => .reset :: run width column rest
  | .part indent mode doc :: rest =>
    match doc, mode with
    | .empty, _ => run width column rest
    | .text content, _ => .write content :: run width (column + Text.width content) rest
    | .line, .flat => .write " " :: run width (column + 1) rest
    | .line, .broken =>
      .write (Piece.newline (σ := Style) indent).content :: run width indent rest
    | .append first second, mode =>
      run width column (.part indent mode first :: .part indent mode second :: rest)
    | .nest n body, mode => run width column (.part (indent + n) mode body :: rest)
    | .group body, .flat => run width column (.part indent .flat body :: rest)
    | .group body, .broken =>
      if fits width column (.part indent .flat body :: rest) then
        run width column (.part indent .flat body :: rest)
      else run width column (.part indent .broken body :: rest)
    | .mark style body, mode =>
      .takeOn style.appearance :: run width column (.part indent mode body :: .leave :: rest)
termination_by weights tasks
decreasing_by
  all_goals
    simp only [weights_cons, Task.weight, MarkedDoc.weight]
    omega

/-- The calls that print a document for a width. -/
def calls (d : MarkedDoc) (width : ℕ) : List PenCall :=
  run width 0 [.part 0 .broken d]

end MarkedDoc

/-! ### Marks around texts -/

/-- The document with a mark around each text. -/
def Doc.marked : Doc Style → MarkedDoc
  | .empty => .empty
  | .text style content => .mark style (.text content)
  | .line => .line
  | .append first second => .append first.marked second.marked
  | .nest n body => .nest n body.marked
  | .group body => .group body.marked

/-- Printing a part in which each text is marked. -/
def Frame.task (f : Frame Style) : MarkedDoc.Task :=
  .part f.indent f.mode f.doc.marked

namespace MarkedDoc

variable {width column indent : ℕ} {mode : Mode} {tasks : List Task}

/-- A marked text is as wide as the text. -/
theorem fits_mark_text (style : Style) (content : String) :
    fits width column (.part indent mode (.mark style (.text content)) :: tasks) =
      if column + Text.width content ≤ width then
        fits width (column + Text.width content) tasks else false := by
  simp only [fits]

/-- Marks have no say in what fits. -/
theorem fits_task (width column : ℕ) (frames : List (Frame Style)) :
    fits width column (frames.map Frame.task) = Layout.fits width column frames := by
  fun_induction Layout.fits width column frames with
  | case1 column => rw [List.map_nil, fits]
  | case2 column indent mode rest ih => rw [List.map_cons, Frame.task, Doc.marked, fits, ih]
  | case3 column₀ indent mode rest style content column hfits ih =>
      rw [List.map_cons, Frame.task, Doc.marked, fits_mark_text, if_pos hfits, ih]
  | case4 column₀ indent mode rest style content column hfits =>
      rw [List.map_cons, Frame.task, Doc.marked, fits_mark_text, if_neg hfits]
  | case5 column indent rest hfits ih =>
      rw [List.map_cons, Frame.task, Doc.marked, fits, if_pos hfits, ih]
  | case6 column indent rest hfits =>
      rw [List.map_cons, Frame.task, Doc.marked, fits, if_neg hfits]
  | case7 column indent rest => rw [List.map_cons, Frame.task, Doc.marked, fits]
  | case8 column indent rest first second mode ih =>
      rw [List.map_cons, Frame.task, Doc.marked, fits, ← ih]
      rfl
  | case9 column indent rest n body mode ih =>
      rw [List.map_cons, Frame.task, Doc.marked, fits, ← ih]
      rfl
  | case10 column indent rest body mode ih =>
      rw [List.map_cons, Frame.task, Doc.marked, fits, ← ih]
      rfl

/-- The pen takes on an appearance, writes the text and goes back. -/
theorem run_mark_text (style : Style) (content : String) :
    run width column (.part indent mode (.mark style (.text content)) :: tasks) =
      (Piece.text style content).penCalls ++
        run width (column + Text.width content) tasks := by
  simp only [run, Piece.penCalls, List.cons_append, List.nil_append]

/-- What is laid out and what is done after it come to the same calls. -/
theorem penCalls_renderFrom (width column : ℕ) (frames : List (Frame Style))
    (out : Array (Piece Style)) :
    (Layout.renderFrom width column frames out).toList.flatMap Piece.penCalls =
      out.toList.flatMap Piece.penCalls ++ run width column (frames.map Frame.task) := by
  have hpush : ∀ (out : Array (Piece Style)) (piece : Piece Style),
      (out.push piece).toList.flatMap Piece.penCalls =
        out.toList.flatMap Piece.penCalls ++ piece.penCalls := by simp
  fun_induction Layout.renderFrom width column frames out with
  | case1 column out => rw [List.map_nil, run, List.append_nil]
  | case2 column out indent mode rest ih =>
      rw [List.map_cons, Frame.task, Doc.marked, run, ih]
  | case3 column out indent mode rest style content ih =>
      rw [List.map_cons, Frame.task, Doc.marked, run_mark_text, ih, hpush, List.append_assoc]
  | case4 column out indent rest ih =>
      rw [List.map_cons, Frame.task, Doc.marked, run, ih, hpush, List.append_assoc]
      rfl
  | case5 column out indent rest ih =>
      rw [List.map_cons, Frame.task, Doc.marked, run, ih, hpush, List.append_assoc]
      rfl
  | case6 column out indent rest first second mode ih =>
      rw [List.map_cons, Frame.task, Doc.marked, run, ih]
      rfl
  | case7 column out indent rest n body mode ih =>
      rw [List.map_cons, Frame.task, Doc.marked, run, ih]
      rfl
  | case8 column out indent rest body ih =>
      rw [List.map_cons, Frame.task, Doc.marked, run, ih]
      rfl
  | case9 column out indent rest body flat hfits ih =>
      -- the group is on one line with its marks if it is without them
      have hmarked : fits width column (.part indent .flat body.marked :: rest.map Frame.task) :=
        (fits_task width column flat).trans hfits
      rw [List.map_cons, Frame.task, Doc.marked, run, if_pos hmarked, ih]
      rfl
  | case10 column out indent rest body flat hfits ih =>
      have hmarked : ¬ fits width column
          (.part indent .flat body.marked :: rest.map Frame.task) := fun hmarked =>
        hfits ((fits_task width column flat).symm.trans hmarked)
      rw [List.map_cons, Frame.task, Doc.marked, run, if_neg hmarked, ih]
      rfl

/-- **The calls for a document with marked texts are those of its pieces.** -/
theorem calls_marked (width : ℕ) (d : Doc Style) :
    d.marked.calls width = (d.render width).toList.flatMap Piece.penCalls := by
  rw [Doc.render, penCalls_renderFrom]
  rfl

-- the text behind the inner mark is still in the outer one, and yet it is written without it
example : (mark .error (.append (.mark .literal (.text "1")) (.text "2"))).calls 80 =
    [.takeOn Style.error.appearance, .takeOn Style.literal.appearance, .write "1", .reset,
      .write "2", .reset] := by
  cbv

end MarkedDoc

end SharedExpr
