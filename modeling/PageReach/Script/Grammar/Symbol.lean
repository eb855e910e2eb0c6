import PageReach.Script.Phrase

/-!
# Symbols of the script grammar

The grammar is a set of rules over the symbols below. A rule is a phrase recogniser that may refer
to other symbols through a parameter `self`; `Script.recognize` ties the knot. Rules that need no
recursion are plain definitions.
-/

namespace PageReach.Script

/-- The two dialects differ in what an angle bracket before an operand means: a type assertion in
`plain` sources, an element in `markup` sources. -/
inductive Dialect where
  | plain | markup
deriving DecidableEq, Repr, Inhabited

/-- Where an expression stands. -/
structure Context where
  /-- In the head of a loop `in` is no operator. -/
  loopHead : Bool
  /-- Inside brackets a line end never ends a statement. -/
  enclosed : Bool
  /-- Arrow functions have no result type. -/
  bareArrows : Bool
deriving DecidableEq, Repr, Inhabited

namespace Context

/-- An expression that is part of a statement. -/
def free : Context := ⟨false, false, false⟩

/-- An expression inside brackets. -/
def inside : Context := ⟨false, true, false⟩

/-- An expression in the head of a loop. -/
def loop : Context := ⟨true, true, false⟩

end Context

/-- The recursive symbols of the grammar. -/
inductive Symbol where
  /-- A statement or declaration. -/
  | statement
  /-- A block of statements in braces. -/
  | block
  /-- One or more expressions with commas between them. -/
  | expression (c : Context)
  /-- An expression without a comma at its top. -/
  | assignment (c : Context)
  /-- An expression whose top operator binds at least as tightly as `level`. -/
  | binary (c : Context) (level : Nat)
  /-- An operand with the unary operators in front of it. -/
  | unary (c : Context)
  /-- A primary expression with member accesses and calls. -/
  | operand (c : Context)
  /-- A primary expression with member accesses only, as it follows `new`. -/
  | constructed
  /-- What a declaration binds, or, when `assigning`, what an assignment sets. -/
  | pattern (assigning : Bool)
  /-- A type. -/
  | type
  /-- A type without a binary type operator at its top. -/
  | typeOperand
  /-- An element of markup. -/
  | element
deriving DecidableEq, Repr, Inhabited

namespace Grammar

open Phrase

/-! ### Repetition on the left -/

/-- Extends `left` by `step` again and again, at most `fuel` times. -/
def growWithin (step : List SyntaxTree → Phrase) : Nat → List SyntaxTree → Phrase
  | 0, left => fun c => some (left, c)
  | fuel + 1, left => fun c =>
    match step left c with
    | some (ts, c₁) => growWithin step fuel ts c₁
    | none => some (left, c)

/-- Reads `first` and extends it by `step` as often as it fits. -/
def grow (first : Phrase) (step : List SyntaxTree → Phrase) : Phrase := fun c => do
  let (ts, c₁) ← first c
  growWithin step (c₁.size + 1) ts c₁

/-- Operands of one operator: a single operand stays as it is, several become one node. The
operator may also stand in front of the first. -/
def operatorChain (k : Kind) (op : String) (p : Phrase) : Phrase :=
  alt [node k (seq [mark op, sepBy1 (mark op) p]), fun c => do
    let (ts, c₁) ← p c
    (extend k none ts (many1 (seq [mark op, p])) c₁).or (some (ts, c₁))]

/-! ### Words and literals -/

/-- Any word, keywords included. -/
def anyWord (k : Kind) : Phrase := wordWhere k fun _ => true

/-- The word `s` as a leaf of kind `k`. -/
def wordAs (k : Kind) (s : String) : Phrase := wordWhere k (· = s)

/-- A string literal. -/
def stringLiteral : Phrase := lexeme .string string?

/-- A number literal. -/
def numberLiteral : Phrase := lexeme .number number?

/-- A name with a number sign in front. -/
def privateName : Phrase := lexeme .privateIdentifier privateName?

/-- A name of a module's export: a word or a string. -/
def exportName : Phrase := alt [anyWord .identifier, stringLiteral]

/-- A template whose substitutions hold `inner`. -/
def templateOf (k : Kind) (inner : Phrase) : Phrase :=
  node k (seq [chars "\x60",
    many (alt [
      immediate .templateText fun cs =>
        match templateRun? 0 0 cs with
        | some 0 | none => none
        | some n => some n,
      node .templateSubstitution (seq [
        immediate .fixed fun cs => if ['$', '{'].isPrefixOf cs then some 2 else none,
        inner, mark "\x7d"])]),
    immediate .fixed fun cs => if cs.head? = some '\x60' then some 1 else none])

/-- Whether the next token is one of the punctuators `ms`. -/
def atMark (ms : List String) (c : Cursor) : Bool :=
  match c.mark? with
  | some m => ms.contains m
  | none => false

/-- Whether the next token is the word `w`. -/
def atWord (w : String) (c : Cursor) : Bool := c.word? = some w

/-- Whether the next token stands on the same line. -/
def onLine (c : Cursor) : Bool := !c.crossesLine

variable (self : Symbol → Phrase)

/-- The name of a property: a word, a literal, an expression in brackets or a private name. -/
def propertyName : Phrase :=
  alt [anyWord .propertyIdentifier, stringLiteral, numberLiteral, privateName,
    node .computedName (brackets (self (.expression .inside)))]

/-- Whether the name of a property may begin at the cursor. -/
def atPropertyName (c : Cursor) : Bool :=
  c.word?.isSome || ["[", "*"].any (fun m => atMark [m] c) ||
    (match c.head? with
      | some h => h = '\x27' || h = '\x22' || h = '#' || h.isDigit
      | none => false)

/-- One of the words `ws`, if a property name follows it. -/
def modifier (ws : List String) : Phrase := seq [wordOf ws, check atPropertyName]

end Grammar

end PageReach.Script
