import SharedExpr.Text.Property

/-!
# Emoji that are drawn as one picture

Several characters in a row can be drawn as one emoji: an emoji and the modifier that colours it,
emoji with joiners between them, and, in front of a joiner, a keycap, a flag made of two regional
indicators, or a black flag with tags that name a region. Which characters belong together is said
here from the last one on.

* `Picture` — what a text begins with, if that is an emoji or a part of one.
* `Picture.before` — what a character in front of it adds to the columns of the text. A picture
  takes the columns of its last emoji, so most characters that join it add nothing.

Scope: which emoji are joined is not looked up in a list of known pictures; any two are.
-/

namespace SharedExpr.Text

/-! ## Classes of characters -/

/-- Whether a character colours the emoji before it. -/
def isModifier (c : Char) : Bool :=
  inRanges [(0x1F3FB, 0x1F3FF)] c

/-- Whether a character can be coloured. -/
def isModifierBase (c : Char) : Bool :=
  inRanges modifierBaseRanges c

/-- Whether a character is a regional indicator: two in a row are drawn as a flag. -/
def isRegional (c : Char) : Bool :=
  inRanges [(0x1F1E6, 0x1F1FF)] c

/-- Whether a character is drawn as an emoji unless something asks otherwise; modifiers and regional
indicators are not counted here. -/
def isEmoji (c : Char) : Bool :=
  inRanges emojiRanges c && !isModifier c

/-- Whether a character is the joiner. -/
def isJoiner (c : Char) : Bool :=
  c == '\u200D'

/-- Whether a character is the mark that encloses the character before it in a keycap. -/
def isKeycapMark (c : Char) : Bool :=
  c == '\u20E3'

/-- Whether a character is the black flag that tags can turn into the flag of a region. -/
def isBlackFlag (c : Char) : Bool :=
  c.toNat == 0x1F3F4

/-- Whether a character is a tag that stands for a small letter. -/
def isLetterTag (c : Char) : Bool :=
  inRanges [(0xE0061, 0xE007A)] c

/-- Whether a character is a tag that stands for a digit. -/
def isDigitTag (c : Char) : Bool :=
  inRanges [(0xE0030, 0xE0039)] c

/-- Whether a character is the tag that ends a row of tags. -/
def isLastTag (c : Char) : Bool :=
  c.toNat == 0xE007F

/-! ## Pictures -/

/-- What a text begins with, if that is an emoji or a part of one. -/
inductive Picture where
  /-- An emoji that is complete. -/
  | emoji
  /-- A modifier. -/
  | modifier
  /-- A regional indicator, and no other one after it. -/
  | region
  /-- Two or more regional indicators. -/
  | regions
  /-- A joiner and an emoji. -/
  | joined
  /-- A keycap mark, a joiner and an emoji. -/
  | joinedKeycap
  /-- A regional indicator, a joiner and an emoji. -/
  | joinedRegion
  /-- Two or more regional indicators, a joiner and an emoji; `odd` tells whether their number is
  odd. -/
  | joinedRegions (odd : Bool)
  /-- Tags, a joiner and an emoji. Of the tags in front of the last one, `letters` stand for
  letters, and before these `digits` stand for digits. -/
  | joinedTags (letters digits : Nat)
deriving DecidableEq, Inhabited

namespace Picture

/-- Whether a character that a selector makes an emoji belongs to the picture. -/
def isJoined : Picture → Bool
  | joined | joinedKeycap => true
  | _ => false

/-- Whether a joiner in front of the picture joins it to what stands before. -/
def isJoinable : Picture → Bool
  | emoji | modifier | regions | joinedRegions _ => true
  | _ => false

/-- What a tag makes of a row of tags, and what the black flag does: a region is named by at least
three and at most six letters, or by three digits and at most four letters. -/
def beforeTags (letters digits : Nat) (c : Char) : Option (Int × Picture) :=
  if isLetterTag c && digits == 0 && letters < 6 then some (0, joinedTags (letters + 1) 0)
  else if isDigitTag c && digits < 3 && (0 < digits || letters ≤ 4) then
    some (0, joinedTags letters (digits + 1))
  else if isBlackFlag c && (digits == 3 || (digits == 0 && 3 ≤ letters)) then some (0, emoji)
  else none

/-- The columns that a character adds in front of a picture, and the picture that the two are then,
if the character belongs to the picture. A joiner belongs to a picture that can be joined, and to a
modifier what can be coloured. Regional indicators make flags from the first one on, and only a flag
is joined: so of an even number of them the last two add nothing, and of an odd number all do. -/
def before (p : Picture) (c : Char) : Option (Int × Picture) :=
  if isJoiner c then if p.isJoinable then some (0, joined) else none
  else
    match p with
    | emoji => none
    | modifier => if isModifierBase c then some (0, emoji) else none
    | region | regions => if isRegional c then some (1, regions) else none
    | joined =>
      if isKeycapMark c then some (0, joinedKeycap)
      else if isRegional c then some (1, joinedRegion)
      else if isModifier c then some (0, modifier)
      else if isLastTag c then some (0, joinedTags 0 0)
      else if isEmoji c then some (0, emoji)
      else none
    | joinedKeycap => none
    | joinedRegion | joinedRegions true =>
      if isRegional c then some (-1, joinedRegions false) else none
    | joinedRegions false => if isRegional c then some (3, joinedRegions true) else none
    | joinedTags letters digits => beforeTags letters digits c

end Picture

/-- What a character is on its own as a part of emoji. -/
def pictureOf? (c : Char) : Option Picture :=
  if isModifier c then some .modifier
  else if isRegional c then some .region
  else if isEmoji c then some .emoji
  else none

end SharedExpr.Text
