import PageReach.Text.Split

/-!
# Glob patterns

`**/` stands for any number of directories, `**` for any characters, `*` and `?` for characters of
one segment, and braces hold literal alternatives. A pattern without a slash is also tried on the
last segment alone, where brackets hold character sets.

A pattern may leave out a line feed at the very end of a path, and neither `**` nor `**/` covers a
line feed.
-/

namespace PageReach.Glob

open Text

/-! ### Patterns -/

/-- A part of a pattern. -/
inductive Part where
  /-- Nothing, or characters up to and with a slash. -/
  | directories
  /-- Any characters. -/
  | anything
  /-- Any characters but slashes. -/
  | star
  /-- One character but a slash. -/
  | one
  /-- One of several texts. -/
  | oneOf (texts : List (List Char))
  /-- A character itself. -/
  | char (c : Char)
deriving DecidableEq, Repr

/-- The parts of a pattern from left to right, `skip` of whose characters belong to the part before
them. A brace that is not closed stands for itself. -/
def partsFrom : (skip : Nat) → List Char → List Part
  | _, [] => []
  | skip + 1, _ :: cs => partsFrom skip cs
  | 0, c :: cs =>
    match c, cs with
    | '*', '*' :: '/' :: _ => .directories :: partsFrom 2 cs
    | '*', '*' :: _ => .anything :: partsFrom 1 cs
    | '*', _ => .star :: partsFrom 0 cs
    | '?', _ => .one :: partsFrom 0 cs
    | '{', _ =>
      match cutAt? ['}'] cs with
      | some (inner, _) => .oneOf (splitChars ',' inner) :: partsFrom (inner.length + 1) cs
      | none => .char c :: partsFrom 0 cs
    | _, _ => .char c :: partsFrom 0 cs

/-- The parts of a pattern. -/
def parts (pattern : String) : List Part := partsFrom 0 pattern.toList

/-! ### Matching -/

/-- What may be left of `cs` after characters that satisfy `p`. -/
def rests (p : Char → Bool) : List Char → List (List Char)
  | [] => [[]]
  | c :: cs => (c :: cs) :: if p c then rests p cs else []

/-- What may be left of `cs` after characters of one line that end in a slash. -/
def restsAfterSlash : List Char → List (List Char)
  | [] => []
  | c :: cs =>
    if c = '\n' then [] else if c = '/' then cs :: restsAfterSlash cs else restsAfterSlash cs

/-- What may be left of `cs` after a part. -/
def Part.rests : Part → List Char → List (List Char)
  | .directories, cs => cs :: restsAfterSlash cs
  | .anything, cs => Glob.rests (· ≠ '\n') cs
  | .star, cs => Glob.rests (· ≠ '/') cs
  | .one, c :: cs => if c = '/' then [] else [cs]
  | .one, [] => []
  | .oneOf texts, cs =>
    texts.filterMap fun t => if t.isPrefixOf cs then some (cs.drop t.length) else none
  | .char _, [] => []
  | .char d, c :: cs => if c = d then [cs] else []

/-- Whether the parts cover the characters. -/
def covers : List Part → List Char → Bool
  | [], cs => cs = [] || cs = ['\n']
  | p :: ps, cs => (p.rests cs).any (covers ps)

/-! ### Character sets -/

/-- A part of a pattern for one segment. -/
inductive NamePart where
  /-- Any characters. -/
  | anything
  /-- One character. -/
  | one
  /-- One character that `chars` or one of `ranges` holds, or, when `negated`, that none does. -/
  | set (negated : Bool) (chars : List Char) (ranges : List (Char × Char))
  /-- A character itself. -/
  | char (c : Char)
deriving DecidableEq, Repr

/-- The pieces of a set between the hyphens that make ranges, `skip` of whose characters cannot be
such a hyphen. -/
def rangePieces (skip : Nat) : List Char → List (List Char)
  | [] => [[]]
  | c :: cs =>
    if skip = 0 && c = '-' then [] :: rangePieces 2 cs
    else
      match rangePieces (skip - 1) cs with
      | [] => [[c]]
      | piece :: pieces => (c :: piece) :: pieces

/-- A hyphen at the end of the set stands for itself. -/
def closeLastPiece : List (List Char) → List (List Char)
  | [] => []
  | [piece] => [piece]
  | [piece, []] => [piece ++ ['-']]
  | piece :: pieces => piece :: closeLastPiece pieces

/-- Joins, from the right, pieces whose range would be empty, leaving out its two ends. -/
def joinEmptyRanges : List (List Char) → List (List Char)
  | [] => []
  | piece :: pieces =>
    match joinEmptyRanges pieces with
    | [] => [piece]
    | next :: more =>
      match piece.getLast?, next with
      | some lo, hi :: tail =>
        if hi < lo then (piece.dropLast ++ tail) :: more else piece :: next :: more
      | _, _ => piece :: next :: more

/-- The ranges between neighbouring pieces. -/
def pieceRanges : List (List Char) → List (Char × Char)
  | a :: b :: rest =>
    (match a.getLast?, b.head? with
      | some lo, some hi => [(lo, hi)]
      | _, _ => []) ++ pieceRanges (b :: rest)
  | _ => []

/-- The set written between two brackets. -/
def setOf (inner : List Char) : NamePart :=
  let pieces :=
    if inner.contains '-' then
      joinEmptyRanges (closeLastPiece (rangePieces (if inner.head? = some '!' then 2 else 1) inner))
    else [inner]
  match pieces with
  | ('!' :: first) :: rest =>
    .set true (first ++ rest.flatten) (pieceRanges (first :: rest))
  | _ => .set false pieces.flatten (pieceRanges pieces)

/-- What stands between an opening bracket and the bracket that closes it; one right at the front
does not close it. -/
def bracketed? (cs : List Char) : Option (List Char) :=
  let lead := match cs with
    | '!' :: ']' :: _ => 2
    | '!' :: _ => 1
    | ']' :: _ => 1
    | _ => 0
  let rest := cs.drop lead
  let inner := rest.takeWhile (· ≠ ']')
  if inner.length < rest.length then some (cs.take (lead + inner.length)) else none

/-- The parts of a pattern for one segment, `skip` of whose characters belong to the part before
them. A bracket that is not closed stands for itself. -/
def namePartsFrom : (skip : Nat) → List Char → List NamePart
  | _, [] => []
  | skip + 1, _ :: cs => namePartsFrom skip cs
  | 0, c :: cs =>
    if c = '*' then .anything :: namePartsFrom 0 cs
    else if c = '?' then .one :: namePartsFrom 0 cs
    else if c = '[' then
      match bracketed? cs with
      | some inner => setOf inner :: namePartsFrom (inner.length + 1) cs
      | none => .char c :: namePartsFrom 0 cs
    else .char c :: namePartsFrom 0 cs

/-- Whether a set holds a character. -/
def inSet (chars : List Char) (ranges : List (Char × Char)) (c : Char) : Bool :=
  chars.contains c || ranges.any fun (lo, hi) => lo ≤ c && c ≤ hi

/-- What may be left of `cs` after a part. -/
def NamePart.rests : NamePart → List Char → List (List Char)
  | .anything, cs => Glob.rests (fun _ => true) cs
  | _, [] => []
  | .one, _ :: cs => [cs]
  | .set negated chars ranges, c :: cs => if inSet chars ranges c != negated then [cs] else []
  | .char d, c :: cs => if c = d then [cs] else []

/-- Whether the parts cover the characters. -/
def coversName : List NamePart → List Char → Bool
  | [], cs => cs = []
  | p :: ps, cs => (p.rests cs).any (coversName ps)

/-! ### Paths -/

/-- Whether a pattern covers the last segment of a path. -/
def matchesName (pattern path : String) : Bool :=
  coversName (namePartsFrom 0 pattern.toList)
    (path.toList.reverse.takeWhile (· ≠ '/')).reverse

/-- Whether a pattern covers a path. -/
def covered (pattern path : String) : Bool :=
  (!pattern.toList.contains '/' && matchesName pattern path) ||
    covers (parts pattern) path.toList

end PageReach.Glob
