import PageReach.Data.Value
import PageReach.Text.Letter
import PageReach.Text.Split

/-!
# Numerals

Reading integers and decimals from text. An integer of more than 4300 digits is not read.
-/

namespace PageReach.Numeral

open Text

/-- The most digits of an integer. -/
def maxDigits : Nat := 4300

/-- The number that digits stand for in a base. -/
def ofDigits (base : Nat) (digits : List Nat) : Nat := digits.foldl (fun n d => base * n + d) 0

/-- The value of a hexadecimal digit. -/
def hexValue? (c : Char) : Option Nat :=
  let n := c.toNat
  if c.isDigit then some (n - 48)
  else if 'a' ≤ c && c ≤ 'f' then some (n - 87)
  else if 'A' ≤ c && c ≤ 'F' then some (n - 55)
  else none

/-- The number that four hexadecimal digits stand for, and the rest. -/
def hexFour? (cs : List Char) : Option (Nat × List Char) :=
  match cs with
  | a :: b :: c :: d :: rest =>
    ([a, b, c, d].mapM hexValue?).map fun ds => (ofDigits 16 ds, rest)
  | _ => none

/-- The digits of a text in which single underscores may stand between digits. `between` tells that
a digit stands before. -/
def digitsWithUnderscores? : (between : Bool) → List Char → Option (List Nat)
  | between, [] => if between then some [] else none
  | between, '_' :: cs => if between && cs.head? != some '_' && !cs.isEmpty then
      digitsWithUnderscores? false cs else none
  | _, c :: cs =>
    match digitValue? c, digitsWithUnderscores? true cs with
    | some d, some ds => some (d :: ds)
    | _, _ => none

/-- Splits a sign off the front; `true` is minus. -/
def sign : List Char → Bool × List Char
  | '-' :: cs => (true, cs)
  | '+' :: cs => (false, cs)
  | cs => (false, cs)

/-- Reads an integer with digits of any script, an optional sign, underscores between digits and
blanks around it. -/
def int? (s : String) : Option Int :=
  let (negative, cs) := sign (trim isBlank s).toList
  match digitsWithUnderscores? false cs with
  | some ds =>
    if ds.length ≤ maxDigits then
      some (if negative then -(ofDigits 10 ds : Int) else ofDigits 10 ds)
    else none
  | none => none

/-- The digits of a text that may be empty. -/
def someDigits? (cs : List Char) : Option (List Nat) :=
  if cs.isEmpty then some [] else digitsWithUnderscores? false cs

/-- Splits a text at the first character that satisfies `p`; the second part is `none` if there is
no such character. -/
def splitAtFirst (p : Char → Bool) (cs : List Char) : List Char × Option (List Char) :=
  let front := cs.takeWhile (!p ·)
  match cs.drop front.length with
  | [] => (front, none)
  | _ :: back => (front, some back)

/-- The exponent of a decimal. -/
def power? : Option (List Char) → Option Int
  | none => some 0
  | some cs =>
    let (negative, ds) := sign cs
    (digitsWithUnderscores? false ds).map fun ds =>
      if negative then -(ofDigits 10 ds : Int) else ofDigits 10 ds

/-- Reads a decimal: digits, perhaps with a point among or beside them, and perhaps an exponent. -/
def float? (s : String) : Option Binary64 :=
  let (negative, cs) := sign s.toList
  let (mantissa, power) := splitAtFirst (fun c => c = 'e' || c = 'E') cs
  let (whole, fraction) := splitAtFirst (· = '.') mantissa
  match someDigits? whole, someDigits? (fraction.getD []), power? power with
  | some ws, some fs, some e =>
    if ws.isEmpty && fs.isEmpty then none
    else some (.ofDecimal negative (ofDigits 10 (ws ++ fs)) (e - fs.length))
  | _, _, _ => none

end PageReach.Numeral
