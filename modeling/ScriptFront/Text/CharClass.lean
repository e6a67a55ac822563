import ScriptFront.Text.PropertyRanges

/-!
The character classes that the lexical grammar rests on. Words may use the letters and digits of any
script; numbers use ASCII digits alone.
-/

namespace ScriptFront.Text

/-- Membership of a code point in a table of closed ranges. -/
def inRanges (ranges : List (Nat × Nat)) (n : Nat) : Bool :=
  ranges.any fun r => decide (r.1 ≤ n) && decide (n ≤ r.2)

/-- The property Alphabetic. -/
def isAlphabetic (c : Char) : Bool :=
  if c.toNat < 0x80 then c.isAlpha else inRanges alphabeticRanges c.toNat

/-- Alphabetic, or of a numeric category (Nd, Nl, No). -/
def isAlphanumeric (c : Char) : Bool :=
  if c.toNat < 0x80 then c.isAlphanum
  else inRanges alphabeticRanges c.toNat || inRanges numericRanges c.toNat

/-- The property White_Space. -/
def isBlank (c : Char) : Bool :=
  inRanges
    [(0x09, 0x0D), (0x20, 0x20), (0x85, 0x85), (0xA0, 0xA0), (0x1680, 0x1680), (0x2000, 0x200A),
     (0x2028, 0x2029), (0x202F, 0x202F), (0x205F, 0x205F), (0x3000, 0x3000)] c.toNat

/-- A word starts with a letter or an underscore. -/
def startsWord (c : Char) : Bool :=
  isAlphabetic c || c == '_'

/-- A word goes on with letters, digits and underscores. -/
def continuesWord (c : Char) : Bool :=
  isAlphanumeric c || c == '_'

end ScriptFront.Text
