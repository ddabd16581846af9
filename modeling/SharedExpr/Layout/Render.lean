import SharedExpr.Layout.Doc
import SharedExpr.Text.Width

/-!
# Laying documents out

A document is laid out from left to right for a given width. When a group is met among broken lines
it is decided at once, and for good, whether it is put on one line. Inside a group that is on one
line every group is on one line. Text is never broken, and it is written even where it does not fit.

* `Frame` — a part of a document on its way, with its indentation and mode. What is still to be laid
  out is a list of frames, so both loops below take a constant amount of stack.
* `Layout.fits` — whether a group may stay on one line: it may if it, and what follows it up to the
  next place where a line ends anyway, keeps within the width.
* `Layout.renderFrom`, `Doc.render` — the pieces of a document. The result is a row of pieces rather
  than a text, so that what was text of the document can be told from what the layout put in
  between.

Scope: styles pass through unread, and no statement about which groups stay on one line is here.
-/

namespace SharedExpr

/-- Whether the lines of a part of a document end. -/
inductive Mode where
  /-- They do not: a line is a space. -/
  | flat
  /-- They do. -/
  | broken
deriving DecidableEq, Inhabited

/-- A part of a document on its way to be laid out. -/
structure Frame (σ : Type) where
  /-- The indentation of the lines that follow. -/
  indent : Nat
  /-- Whether its lines end. -/
  mode : Mode
  /-- The part. -/
  doc : Doc σ

/-- A piece of a laid out document. -/
inductive Piece (σ : Type) where
  /-- A text of the document. -/
  | text (style : σ) (content : String)
  /-- A line that does not end. -/
  | space
  /-- A line that ends, and the indentation of the next one. -/
  | newline (indent : Nat)
deriving DecidableEq, Inhabited

/-- The text that a piece adds. -/
def Piece.content {σ : Type} : Piece σ → String
  | text _ content => content
  | space => " "
  | newline indent => "\n" ++ String.ofList (List.replicate indent ' ')

namespace Layout

variable {σ : Type}

/-- The number of parts of all frames. -/
def weight (frames : List (Frame σ)) : Nat :=
  frames.foldr (fun f n => f.doc.weight + n) 0

/-- The weight of frames is that of the first one and of the rest. -/
@[simp] theorem weight_cons (f : Frame σ) (frames : List (Frame σ)) :
    weight (f :: frames) = f.doc.weight + weight frames := by
  simp [weight]

/-- Whether the frames, laid out from a column on, keep within the width up to the first line that
ends. -/
def fits (width column : Nat) (frames : List (Frame σ)) : Bool :=
  match frames with
  | [] => true
  | ⟨indent, mode, doc⟩ :: rest =>
    match doc, mode with
    | .empty, _ => fits width column rest
    | .text _ content, _ =>
      let column := column + Text.width content
      if column ≤ width then fits width column rest else false
    | .line, .flat => if column + 1 ≤ width then fits width (column + 1) rest else false
    | .line, .broken => true
    | .append first second, mode =>
      fits width column (⟨indent, mode, first⟩ :: ⟨indent, mode, second⟩ :: rest)
    | .nest n body, mode => fits width column (⟨indent + n, mode, body⟩ :: rest)
    | .group body, mode => fits width column (⟨indent, mode, body⟩ :: rest)
termination_by weight frames
decreasing_by all_goals simp [Doc.weight]; try omega

/-- The pieces of the frames, laid out from a column on, after those laid out already. -/
def renderFrom (width column : Nat) (frames : List (Frame σ)) (out : Array (Piece σ)) :
    Array (Piece σ) :=
  match frames with
  | [] => out
  | ⟨indent, mode, doc⟩ :: rest =>
    match doc, mode with
    | .empty, _ => renderFrom width column rest out
    | .text style content, _ =>
      renderFrom width (column + Text.width content) rest (out.push (.text style content))
    | .line, .flat => renderFrom width (column + 1) rest (out.push .space)
    | .line, .broken => renderFrom width indent rest (out.push (.newline indent))
    | .append first second, mode =>
      renderFrom width column (⟨indent, mode, first⟩ :: ⟨indent, mode, second⟩ :: rest) out
    | .nest n body, mode => renderFrom width column (⟨indent + n, mode, body⟩ :: rest) out
    | .group body, .flat => renderFrom width column (⟨indent, .flat, body⟩ :: rest) out
    | .group body, .broken =>
      let flat : List (Frame σ) := ⟨indent, .flat, body⟩ :: rest
      if fits width column flat then renderFrom width column flat out
      else renderFrom width column (⟨indent, .broken, body⟩ :: rest) out
termination_by weight frames
decreasing_by all_goals simp [Doc.weight]; try omega

end Layout

/-- The pieces of a document at a width. -/
def Doc.render {σ : Type} (width : Nat) (d : Doc σ) : Array (Piece σ) :=
  Layout.renderFrom width 0 [⟨0, .broken, d⟩] #[]

/-- The text of pieces. -/
def Piece.contents {σ : Type} (pieces : Array (Piece σ)) : String :=
  pieces.foldl (fun text p => text ++ p.content) ""

end SharedExpr
