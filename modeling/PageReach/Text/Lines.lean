/-!
# Lines of a text

Lines are counted from one and end at line feeds. `unifyLineEnds` turns the other two usual line
ends into line feeds, so that counting is the same for all of them.
-/

namespace PageReach.Text

/-- The number of the line on which a place lies that `offset` characters (or bytes) precede. A
place before the beginning lies on the first line. -/
def lineAt {α : Type} [DecidableEq α] (lineFeed : α) (content : List α) (offset : Int) : Nat :=
  if offset ≤ 0 then 1 else (content.take offset.toNat).count lineFeed + 1

/-- The number of the line of a character. -/
def lineOfOffset (content : String) (offset : Int) : Nat := lineAt '\n' content.toList offset

/-- The number of the line of a byte of the text's UTF-8 form. -/
def lineOfByte (content : String) (offset : Int) : Nat :=
  lineAt 10 content.toUTF8.toList offset

/-- How many characters stand before the first occurrence of `needle`. -/
def indexOf? (needle : List Char) : List Char → Option Nat
  | [] => if needle.isEmpty then some 0 else none
  | c :: cs =>
    if needle.isPrefixOf (c :: cs) then some 0 else (indexOf? needle cs).map (· + 1)

/-- The line on which `needle` first occurs. -/
def lineOf? (content needle : String) : Option Nat :=
  (indexOf? needle.toList content.toList).map fun n => lineOfOffset content n

/-- Turns a carriage return, with or without a line feed after it, into a line feed. -/
def unifyLineEnds : List Char → List Char
  | '\r' :: '\n' :: cs => '\n' :: unifyLineEnds cs
  | '\r' :: cs => '\n' :: unifyLineEnds cs
  | c :: cs => c :: unifyLineEnds cs
  | [] => []

end PageReach.Text
