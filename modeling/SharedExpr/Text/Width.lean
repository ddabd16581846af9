import SharedExpr.Text.Emoji
import SharedExpr.Text.Ligature
import SharedExpr.Text.Selector

/-!
# Widths of texts

The number of columns that a text takes in a terminal. A text of ASCII characters takes one column
for each, control characters included. In any other text a character takes no column, one, two or
three, and characters that are drawn as one are counted once: a carriage return with its line feed,
the parts of an emoji, a character with the selector that asks for one of its forms, and letters
that merge.

* `charWidth` — the columns of a character on its own.
* `measure` — the columns of characters in a row. What is drawn as one is known by what follows its
  first character, so a text is measured from its end; what has to be remembered of the part already
  measured is `Ahead`.
* `measureChar` — which rule applies to a character: one that obeys a selector takes the columns of
  the form asked for, a selector takes none, a character that is drawn as one with what follows adds
  what is said there, and any other takes its own columns.
* `width` — the columns of a text.

Which characters belong together is said in `SharedExpr.Text.Emoji`, `SharedExpr.Text.Ligature` and
`SharedExpr.Text.Selector`.
-/

namespace SharedExpr.Text

/-! ## Single characters -/

/-- The number of columns that a character takes on its own. -/
def charWidth (c : Char) : Nat :=
  if c.toNat ≤ 0xA0 then 1
  else if c.toNat = 0x17D8 then 3
  else if inRanges zeroWidthRanges c then 0
  else if inRanges wideRanges c then 2
  else 1

/-! ## What follows a character -/

/-- What the part of a text that is already measured begins with, selectors aside. -/
inductive Front where
  /-- Nothing that the character before it has to know. -/
  | plain
  /-- A line feed. -/
  | lineFeed
  /-- An emoji or a part of one. -/
  | picture (p : Picture)
  /-- A letter that may merge with the one before it; `joined` tells whether a joiner precedes. -/
  | letter (partner : Partner) (joined : Bool)
deriving DecidableEq, Inhabited

/-- What a character is to the character before it. -/
def Front.ofChar (c : Char) : Front :=
  if c == '\n' then lineFeed
  else
    match pictureOf? c, partnerOf? c with
    | some p, _ => picture p
    | none, some p => letter p false
    | none, none => plain

/-- The columns that a character adds in front of a text, and what the text begins with then, if the
two are drawn as one. -/
def Front.merge? (front : Front) (c : Char) : Option (Int × Front) :=
  match front with
  | plain => none
  | lineFeed => if c == '\r' then some (0, plain) else none
  | picture p => (p.before c).map fun (columns, p) => (columns, picture p)
  | letter partner joined =>
    (partner.before joined c).map fun (columns, rest) =>
      (columns, rest.elim plain fun (partner, joined) => letter partner joined)

/-- What the part of a text that is already measured begins with. -/
structure Ahead where
  /-- The selectors that stand first. -/
  selectors : Selectors
  /-- What it begins with otherwise. -/
  front : Front
deriving DecidableEq, Inhabited

/-- What is still known of a text when the selectors in front of it select nothing. -/
def Ahead.unselected (ahead : Ahead) : Front :=
  match ahead.front with
  | .letter partner joined => .letter partner joined
  | front => if ahead.selectors = .none then front else .plain

/-- What a text begins with when a selector is put in front of it. It takes the place of other
selectors and of what the text begins with, except for a letter that allows marks, in front of which
selectors gather, and for a joined emoji, to which an emoji is joined that a selector makes. -/
def Ahead.select (ahead : Ahead) (s : Selector) : Ahead :=
  match ahead.unselected with
  | .letter partner joined =>
    if partner.allowsMarks then ⟨ahead.selectors.insert s, .letter partner joined⟩
    else ⟨Selectors.none.insert s, .plain⟩
  | .picture p =>
    ⟨Selectors.none.insert s, if s = .emoji ∧ p.isJoined then .picture p else .plain⟩
  | _ => ⟨Selectors.none.insert s, .plain⟩

/-- The columns of a character in the form that a selector asks for, and what the text begins with
then. An emoji that is joined to another one takes no columns of its own. -/
def Selector.columns : Selector → Front → Int × Front
  | emoji, .picture p => (if p.isJoined then 0 else 2, .picture .emoji)
  | emoji, _ => (2, .picture .emoji)
  | plain, _ => (1, .plain)
  | wide, _ => (2, .plain)

/-! ## Texts -/

/-- The columns that a character adds in front of a text, and what the text begins with then. -/
def measureChar (c : Char) (ahead : Ahead) : Int × Ahead :=
  match ahead.selectors.choose? c, Selector.ofChar? c, ahead.unselected.merge? c with
  | some s, _, _ =>
    let (columns, front) := s.columns ahead.front
    (columns, ⟨.none, front⟩)
  | none, some s, _ => (0, ahead.select s)
  | none, none, some (columns, front) => (columns, ⟨.none, front⟩)
  | none, none, none => (charWidth c, ⟨.none, .ofChar c⟩)

/-- The columns that characters take. -/
def measure (cs : List Char) : Nat :=
  (cs.foldr (fun c (total, ahead) =>
    let (columns, ahead) := measureChar c ahead
    (total + columns, ahead)) ((0 : Int), (⟨.none, .plain⟩ : Ahead))).1.toNat

/-- Whether a text holds ASCII characters only. -/
def isAscii (s : String) : Bool :=
  s.toList.all fun c => c.toNat < 0x80

/-- The number of columns that a text takes. -/
def width (s : String) : Nat :=
  if isAscii s then s.utf8ByteSize else measure s.toList

example : width "é漢" = 3 ∧ width "e\u0301" = 1 ∧ width "\u200B" = 0 ∧ width "ﾊﾝ" = 2 := by
  decide +kernel

example : width "🇩🇪" = 2 ∧ width "👩\u200D👩\u200D👧" = 2 ∧ width "😀😀" = 4 := by
  decide +kernel

example : width "🏠\uFE0E" = 1 ∧ width "🌐\uFE0E" = 2 ∧ width "”\uFE01" = 2 := by
  decide +kernel

end SharedExpr.Text
