import PageReach.Text.Letter
import PageReach.Text.Split

/-!
# Mentions of names

A text mentions a name where the name stands as a whole word. Where several names could begin at one
place, the longest that is a whole word is mentioned, and mentions do not overlap.
-/

namespace PageReach.Catalog

open Text

/-- Whether a word begins or ends between two neighbouring characters. -/
def isBoundary (before after : Option Char) : Bool := before.any isWord != after.any isWord

/-- Whether a name stands as a whole word at the front of a text, given that a word may begin
there. -/
def standsAt (cs name : List Char) : Bool :=
  name.isPrefixOf cs && isBoundary name.getLast? (cs.drop name.length).head?

/-- The names mentioned in a text, in order. `before` is the character in front, and the first
`skip` characters belong to a mention already found. -/
def mentionsFrom (names : List (List Char)) :
    (before : Option Char) → (skip : Nat) → List Char → List (List Char)
  | _, _, [] => []
  | _, skip + 1, c :: cs => mentionsFrom names (some c) skip cs
  | before, 0, c :: cs =>
    match if isBoundary before (some c) then names.find? (standsAt (c :: cs)) else none with
    | some name => name :: mentionsFrom names (some c) (name.length - 1) cs
    | none => mentionsFrom names (some c) 0 cs

/-- Longer names first, and those of one length by code points. -/
def longestFirst (names : List String) : List String :=
  names.mergeSort fun a b => b.length < a.length || (a.length = b.length && a ≤ b)

/-- The names mentioned in a text, in order. -/
def mentions (names : List String) (content : String) : List String :=
  (mentionsFrom ((longestFirst names).map String.toList) none 0 content.toList).map String.ofList

end PageReach.Catalog
