import PageReach.Data.Numeral

/-!
# Tokens of GraphQL documents

Blanks, commas and comments separate tokens and are left out. A text that holds anything else that
is no token has no tokens at all.
-/

namespace PageReach.Document

/-- A token of a document. -/
inductive Token where
  /-- A punctuator of one character. -/
  | mark (c : Char)
  /-- Three points. -/
  | spread
  | name (s : String)
  | number
  /-- A string or a block string. -/
  | text
deriving DecidableEq, Repr, Inhabited

/-! ### Names and numbers -/

/-- Characters that may begin a name. -/
def beginsName (c : Char) : Bool := c.isAlpha || c = '_'

/-- Characters of a name. -/
def inName (c : Char) : Bool := c.isAlphanum || c = '_'

/-- What follows at least one digit. -/
def afterDigits? (cs : List Char) : Option (List Char) :=
  if cs.head?.any Char.isDigit then some (cs.dropWhile Char.isDigit) else none

/-- What follows a fraction, if there is one. -/
def afterFraction? : List Char → Option (List Char)
  | '.' :: cs => afterDigits? cs
  | cs => some cs

/-- What follows an exponent, if there is one. -/
def afterExponent? (cs : List Char) : Option (List Char) :=
  match cs with
  | e :: rest =>
    if e = 'e' || e = 'E' then
      match rest with
      | s :: more => afterDigits? (if s = '+' || s = '-' then more else rest)
      | [] => none
    else some cs
  | [] => some cs

/-- What follows the digits before the point: a zero alone, or digits. -/
def afterWhole? : List Char → Option (List Char)
  | '0' :: cs => if cs.head?.any Char.isDigit then none else some cs
  | cs => afterDigits? cs

/-- What follows a number. Neither a point nor a name may stand there. -/
def afterNumber? (cs : List Char) : Option (List Char) := do
  let rest ← afterWhole? (if cs.head? = some '-' then cs.drop 1 else cs)
  let rest ← afterFraction? rest
  let rest ← afterExponent? rest
  if rest.head?.any fun c => c = '.' || beginsName c then none else some rest

/-! ### Strings -/

/-- Numbers of characters. -/
def isCharacter (n : Nat) : Bool := n < 0xd800 || (0xe000 ≤ n && n < 0x110000)

/-- What follows the hexadecimal digits and the closing brace of an escaped character. There are at
most eight digits. -/
def afterBracedDigits? : (left : Nat) → (value : Nat) → List Char → Option (List Char)
  | left, value, '\x7d' :: cs => if left < 8 && isCharacter value then some cs else none
  | 0, _, _ => none
  | left + 1, value, c :: cs =>
    (Numeral.hexValue? c).bind fun d => afterBracedDigits? left (16 * value + d) cs
  | _, _, [] => none

/-- What follows an escaped character after its backslash. A pair of halves stands for one
character, and no half stands alone. -/
def afterEscape? : List Char → Option (List Char)
  | 'u' :: '\x7b' :: cs => afterBracedDigits? 8 0 cs
  | 'u' :: cs =>
    (Numeral.hexFour? cs).bind fun (hi, rest) =>
      if isCharacter hi then some rest
      else if hi < 0xdc00 then
        match rest with
        | '\\' :: 'u' :: more =>
          (Numeral.hexFour? more).bind fun (lo, after) =>
            if 0xdc00 ≤ lo && lo < 0xe000 then some after else none
        | _ => none
      else none
  | c :: cs => if ['\x22', '\\', '/', 'b', 'f', 'n', 'r', 't'].contains c then some cs else none
  | [] => none

/-- What follows a string after its opening quote. It ends on its line. -/
def afterString? : (fuel : Nat) → List Char → Option (List Char)
  | 0, _ => none
  | _, [] => none
  | fuel + 1, c :: cs =>
    if c = '\x22' then some cs
    else if c = '\\' then (afterEscape? cs).bind (afterString? fuel)
    else if c = '\n' || c = '\r' then none
    else afterString? fuel cs

/-- What follows a block string after its opening quotes. Only three quotes can be escaped. -/
def afterBlock? : List Char → Option (List Char)
  | '\x22' :: '\x22' :: '\x22' :: cs => some cs
  | '\\' :: '\x22' :: '\x22' :: '\x22' :: cs => afterBlock? cs
  | _ :: cs => afterBlock? cs
  | [] => none

/-! ### Tokens -/

/-- Characters between tokens. -/
def isBlank (c : Char) : Bool := [' ', '\t', ',', '\ufeff', '\n', '\r'].contains c

/-- The punctuators of one character. -/
def marks : List Char := ['!', '$', '&', '(', ')', ':', '=', '@', '[', ']', '\x7b', '|', '\x7d']

/-- The token at the front, and what follows. -/
def token? (cs : List Char) : Option (Token × List Char) :=
  match cs with
  | '.' :: '.' :: '.' :: rest => some (.spread, rest)
  | '\x22' :: '\x22' :: '\x22' :: rest => (afterBlock? rest).map (.text, ·)
  | '\x22' :: rest => (afterString? (rest.length + 1) rest).map (.text, ·)
  | c :: rest =>
    if marks.contains c then some (.mark c, rest)
    else if c.isDigit || c = '-' then (afterNumber? cs).map (.number, ·)
    else if beginsName c then
      some (.name (String.ofList (cs.takeWhile inName)), cs.dropWhile inName)
    else none
  | [] => none

/-- The tokens of a row of characters. -/
def tokensFrom? : (fuel : Nat) → List Char → Option (List Token)
  | _, [] => some []
  | 0, _ => none
  | fuel + 1, c :: cs =>
    if isBlank c then tokensFrom? fuel cs
    else if c = '#' then tokensFrom? fuel (cs.dropWhile fun c => c ≠ '\n' && c ≠ '\r')
    else
      match token? (c :: cs) with
      | none => none
      | some (t, rest) => (tokensFrom? fuel rest).map (t :: ·)

/-- The tokens of a document. -/
def tokens? (source : String) : Option (List Token) :=
  let cs := source.toList
  tokensFrom? (cs.length + 1) cs

end PageReach.Document
