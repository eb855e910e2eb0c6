import PageReach.Data.Numeral
import PageReach.Script.Tree

/-!
# Literal expressions

The value that an expression denotes if it is written out: objects, arrays, strings, templates
without substitutions, numbers and truth values. Everything else denotes null.
-/

namespace PageReach.Script

namespace SyntaxTree

/-- The number that a numeral denotes: an integer if it can be read as one, else a decimal. -/
def numberValue (s : String) : Value :=
  match Numeral.int? s with
  | some n => .int n
  | none =>
    match Numeral.float? s with
    | some x => .float x
    | none => .null

/-- The text between the first and the last character. -/
def innerText (t : SyntaxTree) : String := String.ofList (t.text.toList.drop 1).dropLast

/-- The name that a key spells out: a string, a name or a number. -/
def keyName? (key : SyntaxTree) : Option String :=
  key.stringValue?.or <|
    if key.kind = .propertyIdentifier || key.kind = .number then some key.text else none

/-- The name that the key of a pair spells out. -/
def pairKey? (pair : SyntaxTree) : Option String := (pair.child? .key).bind keyName?

/-- The value of an expression that holds no other ones. -/
def scalarValue (t : SyntaxTree) : Value :=
  match t.kind with
  | .string => (t.stringValue?.map Value.text).getD .null
  | .template =>
    if t.children.any (·.kind = .templateSubstitution) then .null else .text t.innerText
  | .number => numberValue t.text
  | .trueLiteral => .bool true
  | .falseLiteral => .bool false
  | _ => .null

mutual

/-- The value that an expression denotes. -/
def literal : SyntaxTree → Value
  | leaf k r p s => scalarValue (leaf k r p s)
  | node k r p ts =>
    match k with
    | .parenthesizedExpression | .asExpression | .satisfiesExpression | .nonNullExpression =>
      (literalFirst ts).getD .null
    | .typeAssertion => (literalLast ts).getD .null
    | .object => .ofFields (literalFields ts)
    | .array => .list (literalItems ts)
    | _ => scalarValue (node k r p ts)

/-- The value of the first operand of a row. -/
def literalFirst : List SyntaxTree → Option Value
  | [] => none
  | t :: ts => if t.isOperand then some (literal t) else literalFirst ts

/-- The value of the last operand of a row. -/
def literalLast : List SyntaxTree → Option Value
  | [] => none
  | t :: ts => (literalLast ts).or (if t.isOperand then some (literal t) else none)

/-- The values of the operands of a row. -/
def literalItems : List SyntaxTree → List Value
  | [] => []
  | t :: ts => if t.isOperand then literal t :: literalItems ts else literalItems ts

/-- The fields of the pairs of a row whose keys are spelled out. -/
def literalFields : List SyntaxTree → List (String × Value)
  | [] => []
  | node .pair r p cs :: ts =>
    match (node .pair r p cs).pairKey? with
    | some key => (key, literalValue cs) :: literalFields ts
    | none => literalFields ts
  | _ :: ts => literalFields ts

/-- The value of the tree of a row that plays the part of a value. -/
def literalValue : List SyntaxTree → Value
  | [] => .null
  | t :: ts => if t.role = some .value then literal t else literalValue ts

end

end SyntaxTree

end PageReach.Script
