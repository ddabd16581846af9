import SharedExpr.Text.Property

/-!
# Selectors of forms

A selector is a character without width that asks for one of two forms of the character in front of
it.

* `Selector` — the selectors that can change the number of columns.
* `Selector.selects` — whether a character has the form that a selector asks for.
* `Selectors` — the selectors that wait for a character that has the form, and
  `Selectors.choose?`, the one that such a character obeys.
* `selects_emoji_of_selects_plain` — what can be made plain can be made an emoji.
* `selects_of_choose?` — a character obeys only a selector whose form it has.

Scope: other selectors exist; they change a drawing and not its columns.
-/

namespace SharedExpr.Text

/-- A selector that can change the number of columns of the character in front of it. -/
inductive Selector where
  /-- Asks for the form of an emoji. -/
  | emoji
  /-- Asks for the form of a plain character. -/
  | plain
  /-- Asks for the wide form of a quotation mark. -/
  | wide
deriving DecidableEq, Inhabited

/-- The selector that a character is. -/
def Selector.ofChar? (c : Char) : Option Selector :=
  if c == '\uFE0F' then some .emoji
  else if c == '\uFE0E' then some .plain
  else if c == '\uFE01' then some .wide
  else none

/-- Whether a character has the form of an emoji; the digits and two signs have it, being parts of
keycaps. -/
def hasEmojiForm (c : Char) : Bool :=
  c.isDigit || c == '#' || c == '*' || inRanges dualEmojiRanges c || inRanges textualEmojiRanges c

/-- Whether a character that is drawn as an emoji otherwise has a plain form, which is narrow: the
squared ideographs have not. -/
def hasPlainForm (c : Char) : Bool :=
  inRanges dualEmojiRanges c && !inRanges [(0x1F200, 0x1F2FF)] c

/-- Whether a character is a quotation mark that has a wide form. -/
def hasWideForm (c : Char) : Bool :=
  inRanges [(0x2018, 0x2019), (0x201C, 0x201D)] c

/-- Whether a character has the form that a selector asks for. -/
def Selector.selects : Selector → Char → Bool
  | emoji => hasEmojiForm
  | plain => hasPlainForm
  | wide => hasWideForm

/-- A character that can be made plain can be made an emoji. -/
theorem selects_emoji_of_selects_plain {c : Char} (h : Selector.plain.selects c) :
    Selector.emoji.selects c := by
  simp only [Selector.selects, hasPlainForm, hasEmojiForm, Bool.and_eq_true, Bool.or_eq_true] at h ⊢
  exact Or.inl (Or.inr h.1)

/-! ## Selectors in a row -/

/-- The selectors that wait for a character that they can select. -/
structure Selectors where
  /-- Whether the selector of emoji forms waits. -/
  emoji : Bool
  /-- Whether the selector of plain forms waits. -/
  plain : Bool
  /-- Whether the selector of wide forms waits. -/
  wide : Bool
deriving DecidableEq, Inhabited

namespace Selectors

/-- No selector waits. -/
def none : Selectors := ⟨false, false, false⟩

/-- The selectors that wait when one more stands in front. The selector of emoji forms waits for the
next character only, so it is gone when another one follows. -/
def insert (w : Selectors) (s : Selector) : Selectors :=
  ⟨s == .emoji, w.plain || s == .plain, w.wide || s == .wide⟩

/-- The selector that a character obeys, of those that wait. -/
def choose? (w : Selectors) (c : Char) : Option Selector :=
  if w.emoji && hasEmojiForm c then some .emoji
  else if w.plain && hasPlainForm c then some .plain
  else if w.wide && hasWideForm c then some .wide
  else Option.none

end Selectors

/-- A character obeys only a selector whose form it has. -/
theorem selects_of_choose? {w : Selectors} {c : Char} {s : Selector} (h : w.choose? c = some s) :
    s.selects c := by
  unfold Selectors.choose? at h
  split at h
  · rename_i hc
    cases h
    exact (Bool.and_eq_true _ _ ▸ hc).2
  split at h
  · rename_i hc
    cases h
    exact (Bool.and_eq_true _ _ ▸ hc).2
  split at h
  · rename_i hc
    cases h
    exact (Bool.and_eq_true _ _ ▸ hc).2
  · cases h

end SharedExpr.Text
