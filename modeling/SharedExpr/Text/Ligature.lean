import SharedExpr.Text.Property

/-!
# Letters that merge with the letter before them

In some scripts two or three letters in a row are drawn as one. Which letters merge is listed here
from the second letter on: `Partner` is a letter that the letter before it may merge with, and
`Partner.before` says what a character in front of it adds to the columns of a text.

* Marks that are not drawn may stand between the letters; a joiner may, and in some scripts it must.
  Between the Kirat Rai vowel signs nothing may.
* A character can take columns back: the sign that subjoins a Khmer letter makes it take none.
* The Kirat Rai sign ai is two signs e, and it makes no difference which of the two ways a text is
  written: a sign ai in front of an odd number of signs e leaves their number odd and takes the
  column of the one that does not merge, and a sign e in front of an even number of them begins
  anew.

Scope: this is the list of the scripts in which merging changes the number of columns, not a list of
all ligatures.
-/

namespace SharedExpr.Text

/-- A letter, or letters already merged, with which the character before them may merge. -/
inductive Partner where
  /-- An Arabic alef; a lam merges with it. -/
  | alef
  /-- A Hebrew lamed; an alef merges with it if a joiner asks for it. -/
  | lamed
  /-- A Khmer letter that can be subjoined. -/
  | subjoinable
  /-- A Buginese ya; the vowel sign i and a letter a merge with it if a joiner asks for it. -/
  | ya
  /-- A Buginese vowel sign i that waits for the letter a. -/
  | signOfYa
  /-- A Tifinagh consonant; another one merges with it if a joiner asks for it. -/
  | consonant
  /-- A Tifinagh consonant with the joiner of the script in front of it. -/
  | boundConsonant
  /-- A Lisu tone letter that can be the second of two. -/
  | tone
  /-- An Old Turkic letter i. -/
  | orkhonI
  /-- A Kirat Rai vowel sign e, or an odd number of them. -/
  | signE
  /-- A Kirat Rai vowel sign ai, or an even number of vowel signs e. -/
  | signAi
deriving DecidableEq, Inhabited

/-- The Arabic letters that are an alef with or without marks. -/
def alefRanges : List (Nat × Nat) :=
  [(0x622, 0x623), (0x625, 0x625), (0x627, 0x627), (0x671, 0x673), (0x675, 0x675), (0x773, 0x774),
    (0x870, 0x882)]

/-- The Arabic letters that are a lam with or without marks. -/
def lamRanges : List (Nat × Nat) :=
  [(0x644, 0x644), (0x6B5, 0x6B8), (0x76A, 0x76A), (0x8A6, 0x8A6), (0x8C7, 0x8C7)]

/-- The Khmer letters that can be subjoined. -/
def subjoinableRanges : List (Nat × Nat) :=
  [(0x1780, 0x1782), (0x1784, 0x1787), (0x1789, 0x178C), (0x178E, 0x1793), (0x1795, 0x1798),
    (0x179B, 0x179D), (0x17A0, 0x17A0), (0x17A2, 0x17A2), (0x17A7, 0x17A7), (0x17AB, 0x17AC),
    (0x17AF, 0x17AF)]

/-- The Tifinagh consonants. -/
def consonantRanges : List (Nat × Nat) :=
  [(0x2D31, 0x2D65), (0x2D6F, 0x2D6F)]

/-- Marks that are not drawn and do not keep letters from merging: those that are at once combining
and ignorable. -/
def undrawnMarkRanges : List (Nat × Nat) :=
  [(0x34F, 0x34F), (0x17B4, 0x17B5), (0x180B, 0x180D), (0x180F, 0x180F), (0xFE00, 0xFE0F),
    (0xE0100, 0xE01EF)]

/-- What a letter is to the character before it. -/
def partnerOf? (c : Char) : Option Partner :=
  if inRanges alefRanges c then some .alef
  else if c.toNat = 0x05DC then some .lamed
  else if inRanges subjoinableRanges c then some .subjoinable
  else if c.toNat = 0x1A10 then some .ya
  else if inRanges consonantRanges c then some .consonant
  else if inRanges [(0xA4FC, 0xA4FD)] c then some .tone
  else if c.toNat = 0x10C03 then some .orkhonI
  else if c.toNat = 0x16D67 then some .signE
  else if c.toNat = 0x16D68 then some .signAi
  else none

/-- Whether a character leaves two Arabic letters neighbours: it takes no column and is transparent
to the joining of letters. -/
def isArabicMark (c : Char) : Bool :=
  inRanges zeroWidthRanges c && !inRanges interruptingRanges c

/-- Whether marks may stand between the letter and the one before it. -/
def Partner.allowsMarks : Partner → Bool
  | signE | signAi => false
  | _ => true

/-- What a character adds in front of a partner, and what the two are then to the character before
them, if the character merges with the partner or may stand between; `joined` tells whether a
joiner stands in front of the partner. -/
def Partner.before (p : Partner) (joined : Bool) (c : Char) :
    Option (Int × Option (Partner × Bool)) :=
  let n := c.toNat
  match p, joined with
  | .alef, _ =>
    if inRanges lamRanges c then some (0, none)
    else if isArabicMark c then some (0, some (.alef, false))
    else none
  | .lamed, true => if n = 0x05D0 then some (0, none) else between
  | .subjoinable, _ => if n = 0x17D2 then some (-1, none) else between
  | .ya, true => if n = 0x1A17 then some (0, some (.signOfYa, false)) else between
  | .signOfYa, _ => if n = 0x1A15 then some (0, none) else between
  | .consonant, joined =>
    if n = 0x2D7F then some (1, some (.boundConsonant, false))
    else if joined && inRanges consonantRanges c then some (0, none)
    else between
  | .boundConsonant, _ => if inRanges consonantRanges c then some (-1, none) else between
  | .tone, _ => if inRanges [(0xA4F8, 0xA4FB)] c then some (0, none) else between
  | .orkhonI, true => if n = 0x10C32 then some (0, none) else between
  | .signE, _ =>
    if n = 0x16D63 || n = 0x16D69 then some (0, none)
    else if n = 0x16D67 then some (0, some (.signAi, false))
    else if n = 0x16D68 then some (1, some (.signE, false))
    else none
  | .signAi, _ => if n = 0x16D63 then some (0, none) else none
  | _, _ => between
where
  /-- What may stand between letters that merge. -/
  between : Option (Int × Option (Partner × Bool)) :=
    if c.toNat = 0x200D then some (0, some (p, true))
    else if inRanges undrawnMarkRanges c then some (0, some (p, joined))
    else none

end SharedExpr.Text
