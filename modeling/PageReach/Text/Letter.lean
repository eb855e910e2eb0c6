import PageReach.Text.Ranges

/-!
# Classes of characters

Blank characters, word characters and decimal digits of all scripts.
-/

namespace PageReach.Text

/-- Whether a number lies in one of the ranges. -/
def inRanges (ranges : Array (Nat × Nat)) (n : Nat) : Bool :=
  ranges.any fun (lo, hi) => lo ≤ n && n ≤ hi

/-- Blank characters: spaces of all widths, tabs, and what ends a line or separates records. -/
def isBlank (c : Char) : Bool :=
  let n := c.toNat
  (9 ≤ n && n ≤ 13) || (0x1c ≤ n && n ≤ 0x20) || n = 0x85 || n = 0xa0 || n = 0x1680 ||
    (0x2000 ≤ n && n ≤ 0x200a) || n = 0x2028 || n = 0x2029 || n = 0x202f || n = 0x205f || n = 0x3000

/-- Blank characters that separate words within a line. -/
def isSpace (c : Char) : Bool :=
  let n := c.toNat
  n = 0x20 || n = 0xa0 || n = 0x1680 || (0x2000 ≤ n && n ≤ 0x200a) || n = 0x202f || n = 0x205f ||
    n = 0x3000

/-- Word characters: letters, numbers and the underscore. -/
def isWord (c : Char) : Bool :=
  if c.toNat < 128 then c.isAlphanum || c = '_' else inRanges wordRanges c.toNat

/-- Letters. -/
def isLetter (c : Char) : Bool :=
  if c.toNat < 128 then c.isAlpha else inRanges letterRanges c.toNat

/-- What may follow a letter in a name and is no letter itself, the underscore apart. -/
def isJoiner (c : Char) : Bool :=
  if c.toNat < 128 then c.isDigit else inRanges joinerRanges c.toNat

/-- The value of a decimal digit of any script. -/
def digitValue? (c : Char) : Option Nat :=
  let n := c.toNat
  if n < 128 then if c.isDigit then some (n - 48) else none
  else (zeros.find? fun z => z ≤ n && n < z + 10).map (n - ·)

/-- A letter between `a` and `z` for one between `A` and `Z`. -/
def lower (s : String) : String := s.map Char.toLower

end PageReach.Text
