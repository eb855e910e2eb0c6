import PageReach.Script.Cursor

/-!
# Phrases

A phrase recogniser reads at a cursor and answers the trees it read and the cursor behind them, or
`none` if no such phrase stands there. Choices are ordered and are not taken back once a later part
of the source fails to fit, so a recogniser is a function.

Blanks and comments in front of a token are read with it. `node` leaves those in front of its first
token outside, so a comment always lies in the smallest node around it.
-/

namespace PageReach.Script

/-- A phrase recogniser. -/
abbrev Phrase := Cursor → Option (List SyntaxTree × Cursor)

namespace Phrase

/-! ### Choice and sequence -/

/-- The phrase of no tokens. -/
def nothing : Phrase := fun c => some ([], c)

/-- No phrase at all. -/
def fail : Phrase := fun _ => none

/-- One phrase after the other. -/
def andThen (p q : Phrase) : Phrase := fun c => do
  let (ts, c₁) ← p c
  let (us, c₂) ← q c₁
  return (ts ++ us, c₂)

/-- The phrases of a list, one after the other. -/
def seq : List Phrase → Phrase
  | [] => nothing
  | [p] => p
  | p :: ps => p.andThen (seq ps)

/-- The first of the phrases that fits. -/
def alt : List Phrase → Phrase
  | [] => fail
  | p :: ps => fun c => (p c).or (alt ps c)

/-- The phrase, or nothing. -/
def opt (p : Phrase) : Phrase := fun c => (p c).or (some ([], c))

/-- A phrase under a condition. -/
def when (b : Bool) (p : Phrase) : Phrase := if b then p else fail

/-- Goes on with `p` only if `test` holds at the cursor. -/
def guarded (test : Cursor → Bool) (p : Phrase) : Phrase := fun c => if test c then p c else none

/-- Reads nothing, and fits only where `test` holds. -/
def check (test : Cursor → Bool) : Phrase := guarded test nothing

/-- Repeats `p` at most `fuel` times, as long as it fits and reads something. -/
def manyWithin (p : Phrase) : Nat → Phrase
  | 0 => nothing
  | fuel + 1 => fun c =>
    match p c with
    | none => some ([], c)
    | some (ts, c₁) =>
      if c₁.size < c.size then
        match manyWithin p fuel c₁ with
        | some (us, c₂) => some (ts ++ us, c₂)
        | none => none
      else some ([], c)

/-- Repeats `p` as often as it fits. -/
def many (p : Phrase) : Phrase := fun c => manyWithin p c.size c

/-- One or more of `p`. -/
def many1 (p : Phrase) : Phrase := p.andThen (many p)

/-- One or more of `p` with `sep` between them. -/
def sepBy1 (sep p : Phrase) : Phrase := p.andThen (many (sep.andThen p))

/-! ### Nodes -/

/-- Splits off the leading blanks and comments. -/
def splitTrivia (ts : List SyntaxTree) : List SyntaxTree × List SyntaxTree :=
  ts.span (·.kind.isTrivia)

/-- Makes what `p` reads one node of kind `k`, which starts at its first token. -/
def node (k : Kind) (p : Phrase) : Phrase := fun c => do
  let (ts, c₁) ← p c
  let (lead, inner) := splitTrivia ts
  let start := (inner.head?.map SyntaxTree.start).getD c₁.place
  return (lead ++ [.node k none start inner], c₁)

/-- Gives the trees that `p` reads, comments and blanks apart, the role `r`. -/
def inRole (r : Role) (p : Phrase) : Phrase := fun c => do
  let (ts, c₁) ← p c
  return (ts.map fun t => if t.kind.isTrivia then t else t.withRole r, c₁)

/-- The kind of the phrase read, if it is a single tree. -/
def kindOf (ts : List SyntaxTree) : Option Kind := ((splitTrivia ts).2.head?).map SyntaxTree.kind

/-- Makes `left`, in the role `r`, the first child of a node of kind `k` whose other children `p`
reads. -/
def extend (k : Kind) (r : Option Role) (left : List SyntaxTree) (p : Phrase) : Phrase :=
  fun c => do
    let (us, c₁) ← p c
    let (lead, inner) := splitTrivia left
    let start := (inner.head?.map SyntaxTree.start).getD c.place
    let inner := match r with
      | some role => inner.map (·.withRole role)
      | none => inner
    return (lead ++ [.node k none start (inner ++ us)], c₁)

/-! ### Tokens -/

/-- Reads blanks and comments, then the lexeme that `lexeme?` finds, as a leaf of kind `k`. -/
def lexeme (k : Kind) (lexeme? : List Char → Option Nat) : Phrase := fun c =>
  let (lead, c₁) := c.trivia
  match lexeme? c₁.ahead with
  | some n =>
    let (leaf, c₂) := c₁.cut k n
    some (lead ++ [leaf], c₂)
  | none => none

/-- The same without blanks and comments in front. -/
def immediate (k : Kind) (lexeme? : List Char → Option Nat) : Phrase := fun c =>
  match lexeme? c.ahead with
  | some n =>
    let (leaf, c₁) := c.cut k n
    some ([leaf], c₁)
  | none => none

/-- The punctuator `s`, and no longer one. -/
def mark (s : String) : Phrase :=
  lexeme .fixed fun cs => if punctuator? cs = some s.toList then some s.length else none

/-- The characters of `s`, whatever follows. -/
def chars (s : String) : Phrase :=
  lexeme .fixed fun cs => if s.toList.isPrefixOf cs then some s.length else none

/-- A word of kind `k` whose spelling passes `ok`. -/
def wordWhere (k : Kind) (ok : String → Bool) : Phrase :=
  lexeme k fun cs =>
    match identifier? cs with
    | some n => if ok (String.ofList (cs.take n)) then some n else none
    | none => none

/-- The keyword `s`. -/
def word (s : String) : Phrase := wordWhere .fixed (· = s)

/-- One of the keywords `ws`. -/
def wordOf (ws : List String) : Phrase := wordWhere .fixed ws.contains

/-! ### Brackets and lists -/

/-- A phrase in braces. -/
def braces (p : Phrase) : Phrase := seq [mark "\x7b", p, mark "\x7d"]

/-- A phrase in parentheses. -/
def parens (p : Phrase) : Phrase := seq [mark "(", p, mark ")"]

/-- A phrase in brackets. -/
def brackets (p : Phrase) : Phrase := seq [mark "[", p, mark "]"]

/-- Any number of `p` with commas between them and one more allowed at the end. -/
def commaList (p : Phrase) : Phrase := opt (seq [sepBy1 (mark ",") p, opt (mark ",")])

/-- Like `commaList`, but elements may be left out between commas. -/
def commaListWithHoles (p : Phrase) : Phrase := (opt p).andThen (many ((mark ",").andThen (opt p)))

/-! ### The end of a statement -/

/-- Ends a statement where no semicolon is written. Comments on the line are read on the way. -/
def statementEndWithin (afterOperand : Bool) : Nat → Phrase
  | 0 => fail
  | fuel + 1 => fun c =>
    if endsStatement afterOperand c.ahead then some ([], c)
    else
      let blanks := runLength isSpacing c.ahead
      match comment? (c.ahead.drop blanks) with
      | some n =>
        let (space, c₁) := c.cut .space blanks
        let (note, c₂) := c₁.cut .comment n
        match statementEndWithin afterOperand fuel c₂ with
        | some (ts, c₃) => some ((if blanks = 0 then [note] else [space, note]) ++ ts, c₃)
        | none => none
      | none => none

/-- A semicolon, or a place where a statement ends without one. -/
def semicolon (afterOperand : Bool) : Phrase :=
  alt [mark ";", fun c => statementEndWithin afterOperand (c.size + 1) c]

end Phrase

end PageReach.Script
