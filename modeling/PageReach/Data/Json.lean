import PageReach.Data.Numeral
import PageReach.Text.Half

/-!
# JSON

A reader of JSON documents. Infinities and `NaN` are read as numbers as well.
-/

namespace PageReach.Json

open Numeral

/-- Why a document cannot be read. -/
inductive Error where
  | malformed
  /-- An integer has too many digits. -/
  | oversizedNumber
deriving DecidableEq, Repr, Inhabited

/-- Drops blanks. -/
def skip (cs : List Char) : List Char :=
  cs.dropWhile fun c => c = ' ' || c = '\t' || c = '\n' || c = '\r'

/-- The character with the number `n`, where half of a pair is kept as `Text.half` says. -/
def character (n : Nat) : Char :=
  if 0xd800 ≤ n && n < 0xe000 then Text.half n else Char.ofNat n

/-- Reads an escaped character after its backslash. -/
def escaped? : List Char → Option (Char × List Char)
  | 'u' :: cs =>
    match hexFour? cs with
    | none => none
    | some (hi, rest) =>
      match rest with
      | '\\' :: 'u' :: more =>
        match hexFour? more with
        | some (lo, after) =>
          if 0xd800 ≤ hi && hi < 0xdc00 && 0xdc00 ≤ lo && lo < 0xe000 then
            some (Char.ofNat (0x10000 + (hi - 0xd800) * 0x400 + (lo - 0xdc00)), after)
          else some (character hi, rest)
        | none => some (character hi, rest)
      | _ => some (character hi, rest)
  | c :: cs =>
    if c = '\x22' || c = '\\' || c = '/' then some (c, cs)
    else if c = 'b' then some ('\x08', cs)
    else if c = 'f' then some ('\x0c', cs)
    else if c = 'n' then some ('\n', cs)
    else if c = 'r' then some ('\r', cs)
    else if c = 't' then some ('\t', cs)
    else none
  | [] => none

/-- Reads the rest of a string. Control characters have to be escaped. -/
def stringRest : (fuel : Nat) → List Char → Except Error (List Char × List Char)
  | 0, _ => .error .malformed
  | _, [] => .error .malformed
  | fuel + 1, c :: cs =>
    if c = '\x22' then .ok ([], cs)
    else if c = '\\' then
      match escaped? cs with
      | none => .error .malformed
      | some (d, rest) => do
        let (ds, rest) ← stringRest fuel rest
        return (d :: ds, rest)
    else if c.toNat < 32 then .error .malformed
    else do
      let (ds, rest) ← stringRest fuel cs
      return (c :: ds, rest)

/-- Reads a string after its opening quote. -/
def string (cs : List Char) : Except Error (String × List Char) := do
  let (ds, rest) ← stringRest (cs.length + 1) cs
  return (String.ofList ds, rest)

/-- The digits at the front. -/
def digits (cs : List Char) : List Char × List Char :=
  (cs.takeWhile Char.isDigit, cs.dropWhile Char.isDigit)

/-- The fraction at the front: a point and at least one digit. -/
def fraction (cs : List Char) : List Char × List Char :=
  match cs with
  | '.' :: rest =>
    if (digits rest).1.isEmpty then ([], cs) else ('.' :: (digits rest).1, (digits rest).2)
  | _ => ([], cs)

/-- The exponent at the front: a mark, perhaps a sign, and at least one digit. -/
def exponent (cs : List Char) : List Char × List Char :=
  match cs with
  | e :: rest =>
    if e = 'e' || e = 'E' then
      let (sign, rest) := match rest with
        | '+' :: more => (['+'], more)
        | '-' :: more => (['-'], more)
        | _ => ([], rest)
      if (digits rest).1.isEmpty then ([], cs) else (e :: sign ++ (digits rest).1, (digits rest).2)
    else ([], cs)
  | [] => ([], cs)

/-- Reads a number. -/
def number (cs : List Char) : Except Error (Value × List Char) :=
  let (minus, cs) := match cs with
    | '-' :: rest => (['-'], rest)
    | _ => ([], cs)
  let (whole, rest) := match cs with
    | '0' :: rest => (['0'], rest)
    | _ => digits cs
  if whole.isEmpty then .error .malformed
  else
    let (fraction, rest) := fraction rest
    let (exponent, rest) := exponent rest
    if fraction.isEmpty && exponent.isEmpty then
      match int? (String.ofList (minus ++ whole)) with
      | some n => .ok (.int n, rest)
      | none => .error .oversizedNumber
    else
      match float? (String.ofList (minus ++ whole ++ fraction ++ exponent)) with
      | some x => .ok (.float x, rest)
      | none => .error .malformed

/-- The words that stand for values. -/
def words : List (String × Value) :=
  [("null", .null), ("true", .bool true), ("false", .bool false), ("NaN", .float .nan),
    ("Infinity", .float (.infinite false)), ("-Infinity", .float (.infinite true))]

/-- Reads a word. -/
def word? (cs : List Char) : Option (Value × List Char) :=
  words.findSome? fun (w, v) =>
    if w.toList.isPrefixOf cs then some (v, cs.drop w.length) else none

mutual

/-- Reads a value whose first character comes first. -/
def value : (fuel : Nat) → List Char → Except Error (Value × List Char)
  | 0, _ => .error .malformed
  | _, [] => .error .malformed
  | fuel + 1, c :: cs =>
    if c = '\x22' then do
      let (s, rest) ← string cs
      return (.text s, rest)
    else if c = '[' then
      match skip cs with
      | ']' :: rest => .ok (.list [], rest)
      | rest => do
        let (vs, rest) ← elements fuel rest
        return (.list vs, rest)
    else if c = '\x7b' then
      match skip cs with
      | '\x7d' :: rest => .ok (.object [], rest)
      | rest => do
        let (fs, rest) ← members fuel rest
        return (.ofFields fs, rest)
    else
      match word? (c :: cs) with
      | some found => .ok found
      | none => number (c :: cs)

/-- Reads the elements of a list and the bracket after them. -/
def elements : (fuel : Nat) → List Char → Except Error (List Value × List Char)
  | 0, _ => .error .malformed
  | fuel + 1, cs => do
    let (v, rest) ← value fuel cs
    match skip rest with
    | ']' :: rest => return ([v], rest)
    | ',' :: rest =>
      let (vs, rest) ← elements fuel (skip rest)
      return (v :: vs, rest)
    | _ => .error .malformed

/-- Reads the fields of an object and the brace after them. -/
def members : (fuel : Nat) → List Char → Except Error (List (String × Value) × List Char)
  | 0, _ => .error .malformed
  | fuel + 1, cs =>
    match cs with
    | '\x22' :: cs => do
      let (key, rest) ← string cs
      match skip rest with
      | ':' :: rest =>
        let (v, rest) ← value fuel (skip rest)
        match skip rest with
        | '\x7d' :: rest => return ([(key, v)], rest)
        | ',' :: rest =>
          let (fs, rest) ← members fuel (skip rest)
          return ((key, v) :: fs, rest)
        | _ => .error .malformed
      | _ => .error .malformed
    | _ => .error .malformed

end

/-- Reads a document. -/
def parse (source : String) : Except Error Value := do
  let cs := source.toList
  let (v, rest) ← value (cs.length + 1) (skip cs)
  if (skip rest).isEmpty then return v else .error .malformed

end PageReach.Json
