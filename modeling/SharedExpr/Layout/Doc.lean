/-!
# Documents

A document is text with places where a line may end. Whether it does is not decided here: a group
marks the parts of a document whose lines end together or not at all, and nesting says how far a
line that follows is indented. Each text carries a style, which has no say in the layout.
-/

namespace SharedExpr

/-- Text with places where a line may end. -/
inductive Doc (σ : Type) where
  /-- No text. -/
  | empty
  /-- A text that is never broken. -/
  | text (style : σ) (content : String)
  /-- A space, or the end of a line. -/
  | line
  /-- One document after another. -/
  | append (first second : Doc σ)
  /-- A document whose lines are indented by `columns` more. -/
  | nest (columns : Nat) (body : Doc σ)
  /-- A document whose lines end together or not at all, inner groups aside. -/
  | group (body : Doc σ)
deriving Inhabited

namespace Doc

variable {σ : Type}

/-- The number of parts of a document, by which work on it is measured. -/
def weight : Doc σ → Nat
  | empty | text _ _ | line => 1
  | append first second => first.weight + second.weight + 1
  | nest _ body | group body => body.weight + 1

/-- Documents one after the other, each after the end of a line. -/
def lines (ds : List (Doc σ)) : Doc σ :=
  ds.foldr (fun d rest => append line (append d rest)) empty

/-- No documents on no lines are the empty document. -/
@[simp] theorem lines_nil : lines ([] : List (Doc σ)) = empty := rfl

/-- The first document stands on a line of its own, and the others follow it. -/
@[simp] theorem lines_cons (d : Doc σ) (ds : List (Doc σ)) :
    lines (d :: ds) = append line (append d (lines ds)) := rfl

end Doc

end SharedExpr
