/-!
# Taking texts apart

Splitting at a character, dropping from either end, and replacing one text by another.
-/

namespace PageReach.Text

/-- The pieces between the occurrences of `sep`; there is one piece more than occurrences. -/
def splitChars (sep : Char) : List Char → List (List Char)
  | [] => [[]]
  | c :: cs =>
    if c = sep then [] :: splitChars sep cs
    else
      match splitChars sep cs with
      | [] => [[c]]
      | piece :: pieces => (c :: piece) :: pieces

/-- The pieces of a text between the occurrences of `sep`. -/
def split (sep : Char) (s : String) : List String := (splitChars sep s.toList).map String.ofList

/-- The text without the characters at its front that satisfy `p`. -/
def trimStart (p : Char → Bool) (s : String) : String := String.ofList (s.toList.dropWhile p)

/-- The characters without those at their end that satisfy `p`. -/
def dropEndWhile (p : Char → Bool) (cs : List Char) : List Char :=
  (cs.reverse.dropWhile p).reverse

/-- The text without the characters at its end that satisfy `p`. -/
def trimEnd (p : Char → Bool) (s : String) : String := String.ofList (dropEndWhile p s.toList)

/-- The text without the characters at either end that satisfy `p`. -/
def trim (p : Char → Bool) (s : String) : String := trimEnd p (trimStart p s)

/-- Whether `s` begins with `front`. -/
def startsWith (s front : String) : Bool := front.toList.isPrefixOf s.toList

/-- Whether `s` ends with `back`. -/
def endsWith (s back : String) : Bool := back.toList.isSuffixOf s.toList

/-- The text without its first `n` characters. -/
def dropFront (s : String) (n : Nat) : String := String.ofList (s.toList.drop n)

/-- The text without its last `n` characters. -/
def dropBack (s : String) (n : Nat) : String := String.ofList (s.toList.take (s.length - n))

/-- The rest of `s` after `front`, if it begins so. -/
def afterPrefix? (s front : String) : Option String :=
  if startsWith s front then some (dropFront s front.length) else none

/-- What stands before `back` in `s`, if `s` ends so. -/
def beforeSuffix? (s back : String) : Option String :=
  if endsWith s back then some (dropBack s back.length) else none

/-- The characters before and after the first occurrence of `needle`. -/
def cutAt? (needle : List Char) : List Char → Option (List Char × List Char)
  | [] => if needle.isEmpty then some ([], []) else none
  | c :: cs =>
    if needle.isPrefixOf (c :: cs) then some ([], (c :: cs).drop needle.length)
    else (cutAt? needle cs).map fun (before, after) => (c :: before, after)

/-- Whether `needle` occurs in a row of characters. -/
def occursIn (needle : List Char) : List Char → Bool
  | [] => needle.isEmpty
  | c :: cs => needle.isPrefixOf (c :: cs) || occursIn needle cs

/-- Whether `needle` occurs in `s`. -/
def contains (s needle : String) : Bool := occursIn needle.toList s.toList

/-- Replaces each character `a` by `b`. -/
def replaceChar (a b : Char) (s : String) : String := s.map fun c => if c = a then b else c

end PageReach.Text
