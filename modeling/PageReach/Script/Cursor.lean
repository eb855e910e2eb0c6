import PageReach.Script.Lexeme
import PageReach.Script.Tree

/-!
# Cursors

A cursor is what lies ahead in a source together with the place reached so far. Reading a lexeme
cuts its characters off the front and makes them a leaf.
-/

namespace PageReach.Script

/-- The characters that lie ahead, their number, and the place reached. -/
structure Cursor where
  ahead : List Char
  size : Nat
  place : Position
deriving DecidableEq, Repr, Inhabited

namespace Cursor

/-- The cursor at the beginning of a source. -/
def ofSource (source : String) : Cursor := ⟨source.toList, source.length, .origin⟩

/-- Cuts off the first `n` characters as a leaf of kind `k`. -/
def cut (c : Cursor) (k : Kind) (n : Nat) : SyntaxTree × Cursor :=
  let cs := c.ahead.take n
  (.leaf k none c.place (String.ofList cs), ⟨c.ahead.drop n, c.size - n, c.place.advance cs⟩)

/-- The blanks and comments ahead, as leaves, and the cursor after them. The fuel is spent once per
leaf. -/
def triviaWithin : Nat → Cursor → List SyntaxTree × Cursor
  | 0, c => ([], c)
  | fuel + 1, c =>
    let blanks := runLength isSpacing c.ahead
    if 0 < blanks then
      let (leaf, next) := c.cut .space blanks
      let (leaves, last) := triviaWithin fuel next
      (leaf :: leaves, last)
    else
      match comment? c.ahead with
      | some n =>
        let (leaf, next) := c.cut .comment n
        let (leaves, last) := triviaWithin fuel next
        (leaf :: leaves, last)
      | none => ([], c)

/-- The blanks and comments ahead, as leaves, and the cursor after them. -/
def trivia (c : Cursor) : List SyntaxTree × Cursor := triviaWithin (c.size + 1) c

/-- The cursor at the next token. -/
def next (c : Cursor) : Cursor := c.trivia.2

/-- Whether the next token stands on a later line. -/
def crossesLine (c : Cursor) : Bool := c.place.row < c.next.place.row

/-- The word ahead, after blanks and comments. -/
def word? (c : Cursor) : Option String :=
  let cs := c.next.ahead
  (identifier? cs).map fun n => String.ofList (cs.take n)

/-- The punctuator ahead, after blanks and comments. -/
def mark? (c : Cursor) : Option String := (punctuator? c.next.ahead).map String.ofList

/-- The character ahead, after blanks and comments. -/
def head? (c : Cursor) : Option Char := c.next.ahead.head?

end Cursor

end PageReach.Script
