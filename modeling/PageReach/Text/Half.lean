/-!
# Halves of pairs

An escape such as `\uD83D` names half of a pair of code units, and nothing forces the other half to
follow. No `Char` stands for a half alone, so `half` keeps it as one of the last 2048 private
characters, which no text is taken to hold otherwise.

A path is made of bytes. Halves have none, except for 128 of them that stand for a byte each; `isStray`
tells the others.
-/

namespace PageReach.Text

/-- The character that is kept for the half with the number `n`, which is one of `0xd800` to
`0xdfff`. -/
def half (n : Nat) : Char := Char.ofNat (n + 0x102000)

/-- Whether a character is kept for a half. -/
def isHalf (c : Char) : Bool := 0x10f800 ≤ c.toNat

/-- Whether a character is kept for a half that has no bytes. Those from `0xdc80` to `0xdcff` stand for
a byte each. -/
def isStray (c : Char) : Bool := isHalf c && !(0x10fc80 ≤ c.toNat && c.toNat < 0x10fd00)

/-- The number of bytes that a character takes in a path. -/
def byteCount (c : Char) : Nat := if isHalf c then 1 else c.utf8Size

end PageReach.Text
