import PageReach.Script.Grammar.Markup
import PageReach.Script.Grammar.Statements

/-!
# Reading a source

`recognize` ties the rules of the grammar together, and `parse?` reads a whole source into a tree.
A source with a syntax error has no tree.
-/

namespace PageReach.Script

open Phrase Grammar

/-- The rule of each symbol, over recognisers for the symbols it refers to. -/
def rule (dialect : Dialect) (self : Symbol → Phrase) : Symbol → Phrase
  | .statement => statementRule self
  | .block => blockRule self
  | .expression c => expressionRule self c
  | .assignment c => assignmentRule self c
  | .binary c level => binaryRule self c level
  | .unary c => unaryRule dialect self c
  | .operand c => grow (operandHead dialect self c (classExpression self)) (operandStep self)
  | .constructed => grow (primary dialect self (classExpression self)) (memberStep self)
  | .pattern assigning => patternRule self assigning
  | .type => typeRule self
  | .typeOperand => typeOperandRule self
  | .element => elementRule self

/-- Recognises a symbol, going down at most `depth` rules. -/
def recognize (dialect : Dialect) : (depth : Nat) → Symbol → Phrase
  | 0, _ => fail
  | depth + 1, s => rule dialect (recognize dialect depth) s

/-- No source needs more rules below one another than this: between two rules that read a token
there are fewer than ten that do not. -/
def depthBound (size : Nat) : Nat := 16 * (size + 1)

/-- A whole source: statements, perhaps after a line that names an interpreter. -/
def program (dialect : Dialect) : Phrase := fun c =>
  let hashBang : Phrase := immediate .hashBang fun cs =>
    if ['#', '!'].isPrefixOf cs then some (runLength (· ≠ '\n') cs) else none
  seq [opt hashBang, many (recognize dialect (depthBound c.size) .statement)] c

/-- The tree of a source, or `none` if the source has a syntax error. -/
def parse? (dialect : Dialect) (source : String) : Option SyntaxTree :=
  match program dialect (Cursor.ofSource source) with
  | some (ts, c) =>
    let (rest, last) := c.trivia
    if last.ahead.isEmpty then some (.node .program none .origin (ts ++ rest)) else none
  | none => none

end PageReach.Script
