import PageReach.Data.Json

/-!
# JSON5

A reader of JSON5 documents: JSON with comments, trailing commas, names as keys, strings in either
kind of quotes, and more ways to write numbers.
-/

namespace PageReach.Json5

open Text Numeral

/-! ### Blanks -/

/-- Characters that end a line. -/
def endsLine (c : Char) : Bool := c = '\n' || c = '\r' || c = '\u2028' || c = '\u2029'

/-- Characters that separate tokens. -/
def isBlank (c : Char) : Bool :=
  endsLine c || c = '\t' || c = '\x0b' || c = '\x0c' || c = '\ufeff' || isSpace c

/-- What follows the end of a comment that may span lines. -/
def afterComment? : List Char → Option (List Char)
  | '*' :: '/' :: cs => some cs
  | _ :: cs => afterComment? cs
  | [] => none

/-- Drops blanks and comments; a comment that is not closed stays. -/
def skip : (fuel : Nat) → List Char → List Char
  | 0, cs => cs
  | fuel + 1, cs =>
    match cs with
    | '/' :: '/' :: rest => skip fuel (rest.dropWhile (!endsLine ·))
    | '/' :: '*' :: rest =>
      match afterComment? rest with
      | some after => skip fuel after
      | none => cs
    | c :: rest => if isBlank c then skip fuel rest else cs
    | [] => []

/-- Drops blanks and comments. -/
def blanks (cs : List Char) : List Char := skip (cs.length + 1) cs

/-! ### Strings and names -/

/-- The character after a backslash in a string; `none` inside for a line that goes on. -/
def escaped? : List Char → Option (Option Char × List Char)
  | [] => none
  | '\r' :: '\n' :: cs => some (none, cs)
  | 'u' :: cs => (hexFour? cs).map fun (n, rest) => (some (Json.character n), rest)
  | 'x' :: a :: b :: cs =>
    match hexValue? a, hexValue? b with
    | some m, some n => some (some (Char.ofNat (16 * m + n)), cs)
    | _, _ => none
  | c :: cs =>
    if endsLine c then some (none, cs)
    else if c = 'b' then some (some '\x08', cs)
    else if c = 'f' then some (some '\x0c', cs)
    else if c = 'n' then some (some '\n', cs)
    else if c = 'r' then some (some '\r', cs)
    else if c = 't' then some (some '\t', cs)
    else if c = 'v' then some (some '\x0b', cs)
    else if c = '0' then
      match cs with
      | d :: _ => if d.isDigit then none else some (some '\x00', cs)
      | [] => some (some '\x00', cs)
    else if c = 'x' || c.isDigit then none
    else some (some c, cs)

/-- The rest of a string up to the closing quote. -/
def stringRest? (quote : Char) : (fuel : Nat) → List Char → Option (List Char × List Char)
  | 0, _ => none
  | _, [] => none
  | fuel + 1, c :: cs =>
    if c = quote then some ([], cs)
    else if c = '\\' then
      match escaped? cs with
      | none => none
      | some (d, rest) => (stringRest? quote fuel rest).map fun (ds, rest) => (d.toList ++ ds, rest)
    else if endsLine c then none
    else (stringRest? quote fuel cs).map fun (ds, rest) => (c :: ds, rest)

/-- A string in either kind of quotes. -/
def string? : List Char → Option (String × List Char)
  | q :: cs =>
    if q = '\x22' || q = '\x27' then
      (stringRest? q (cs.length + 1) cs).map fun (ds, rest) => (String.ofList ds, rest)
    else none
  | [] => none

/-- Characters that may begin a name. -/
def beginsName (c : Char) : Bool := isLetter c || c = '$' || c = '_'

/-- Characters that may stand in a name. -/
def inName (c : Char) : Bool := beginsName c || isJoiner c || c = '\u200c' || c = '\u200d'

/-- A character of a name, which may be written by its number. -/
def nameChar? (p : Char → Bool) : List Char → Option (Char × List Char)
  | '\\' :: 'u' :: cs => (hexFour? cs).map fun (n, rest) => (Json.character n, rest)
  | c :: cs => if p c then some (c, cs) else none
  | [] => none

/-- The rest of a name. -/
def nameRest : (fuel : Nat) → List Char → List Char × List Char
  | 0, cs => ([], cs)
  | fuel + 1, cs =>
    match nameChar? inName cs with
    | none => ([], cs)
    | some (c, rest) =>
      let (ds, rest) := nameRest fuel rest
      (c :: ds, rest)

/-- A name. -/
def name? (cs : List Char) : Option (String × List Char) :=
  (nameChar? beginsName cs).map fun (c, rest) =>
    let (ds, rest) := nameRest rest.length rest
    (String.ofList (c :: ds), rest)

/-! ### Numbers -/

/-- The exponent at the front of a text, which may lack its digits. -/
def exponent (cs : List Char) : List Char × List Char :=
  match cs with
  | e :: rest =>
    if e = 'e' || e = 'E' then
      let (sign, rest) := match rest with
        | '+' :: more => (['+'], more)
        | '-' :: more => (['-'], more)
        | _ => ([], rest)
      (e :: sign ++ (Json.digits rest).1, (Json.digits rest).2)
    else ([], cs)
  | [] => ([], cs)

/-- The fraction at the front of a text, which may lack its digits. -/
def fraction (cs : List Char) : List Char × List Char :=
  match cs with
  | '.' :: rest => ('.' :: (Json.digits rest).1, (Json.digits rest).2)
  | _ => ([], cs)

/-- The digits before the point: a zero alone, or digits that do not begin with one. -/
def whole (cs : List Char) : List Char × List Char :=
  match cs with
  | '0' :: rest =>
    match rest with
    | d :: _ => if d.isDigit then ([], cs) else (['0'], rest)
    | [] => (['0'], rest)
  | _ => Json.digits cs

/-- A decimal with `signs` before it. At most one minus may stand there. -/
def decimal? (signs : List Char) (cs : List Char) : Option (Value × List Char) :=
  let (front, rest) := whole cs
  let (middle, rest) := fraction rest
  let (back, rest) := if front.isEmpty && middle.isEmpty then ([], rest) else exponent rest
  if front.isEmpty && middle.isEmpty then none
  else if (nameChar? beginsName rest).isSome then none
  else
    let all := String.ofList (signs ++ front ++ middle ++ back)
    if middle.isEmpty && back.isEmpty then (int? all).map fun n => (.int n, rest)
    else (float? all).map fun x => (.float x, rest)

/-- A hexadecimal number. -/
def hexadecimal? : List Char → Option (Value × List Char)
  | '0' :: x :: cs =>
    if x = 'x' || x = 'X' then
      let ds := (cs.takeWhile fun c => (hexValue? c).isSome).filterMap hexValue?
      if ds.isEmpty then none else some (.int (ofDigits 16 ds), cs.drop ds.length)
    else none
  | _ => none

/-- A number after the signs that precede it. -/
def unsigned? (minuses : Nat) (cs : List Char) : Option (Value × List Char) :=
  let after (word : String) (x : Binary64) : Option (Value × List Char) :=
    if word.toList.isPrefixOf cs && minuses ≤ 1 then some (.float x, cs.drop word.length) else none
  ((decimal? (List.replicate minuses '-') cs).or
    (if minuses = 0 then hexadecimal? cs else none)).or
      ((after "Infinity" (.infinite (minuses = 1))).or (after "NaN" .nan))

/-- A number. -/
def number? : (minuses : Nat) → List Char → Option (Value × List Char)
  | minuses, '-' :: cs => number? (minuses + 1) cs
  | minuses, '+' :: cs => number? minuses cs
  | minuses, cs => unsigned? minuses cs

/-! ### Documents -/

/-- The words that stand for values. -/
def word? (cs : List Char) : Option (Value × List Char) :=
  [("null", Value.null), ("true", .bool true), ("false", .bool false)].findSome? fun (w, v) =>
    if w.toList.isPrefixOf cs then some (v, cs.drop w.length) else none

/-- A string, a word or a number. -/
def scalar? (cs : List Char) : Option (Value × List Char) :=
  ((word? cs).or (number? 0 cs)).or ((string? cs).map fun (s, rest) => (.text s, rest))

mutual

/-- A value whose first character comes first. -/
def value? : (fuel : Nat) → List Char → Option (Value × List Char)
  | 0, _ => none
  | fuel + 1, '[' :: cs =>
    (elements? fuel (blanks cs)).map fun (vs, rest) => (.list vs, rest)
  | fuel + 1, '\x7b' :: cs =>
    (members? fuel (blanks cs)).map fun (fs, rest) => (.ofFields fs, rest)
  | _ + 1, cs => scalar? cs

/-- The elements of a list and the bracket after them, which may follow a comma. -/
def elements? : (fuel : Nat) → List Char → Option (List Value × List Char)
  | 0, _ => none
  | _ + 1, ']' :: rest => some ([], rest)
  | fuel + 1, cs =>
    match value? fuel cs with
    | none => none
    | some (v, rest) =>
      match blanks rest with
      | ']' :: rest => some ([v], rest)
      | ',' :: rest => (elements? fuel (blanks rest)).map fun (vs, rest) => (v :: vs, rest)
      | _ => none

/-- The fields of an object and the brace after them, which may follow a comma. -/
def members? : (fuel : Nat) → List Char →
    Option (List (String × Value) × List Char)
  | 0, _ => none
  | _ + 1, '\x7d' :: rest => some ([], rest)
  | fuel + 1, cs =>
    match (string? cs).or (name? cs) with
    | none => none
    | some (key, rest) =>
      match blanks rest with
      | ':' :: rest =>
        match value? fuel (blanks rest) with
        | none => none
        | some (v, rest) =>
          match blanks rest with
          | '\x7d' :: rest => some ([(key, v)], rest)
          | ',' :: rest =>
            (members? fuel (blanks rest)).map fun (fs, rest) => ((key, v) :: fs, rest)
          | _ => none
      | _ => none

end

/-- The value of a document. -/
def parse? (source : String) : Option Value :=
  let cs := source.toList
  match value? (2 * cs.length + 2) (blanks cs) with
  | some (v, rest) => if (blanks rest).isEmpty then some v else none
  | none => none

end PageReach.Json5
