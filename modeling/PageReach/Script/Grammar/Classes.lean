import PageReach.Script.Grammar.Types

/-!
# Classes

Class bodies and the declarations of classes, interfaces and enumerations.
-/

namespace PageReach.Script.Grammar

open Phrase

variable (self : Symbol → Phrase)

/-- The words that may stand before a field of a class. -/
def fieldModifiers : List String :=
  ["public", "private", "protected", "static", "override", "readonly", "abstract", "declare",
    "accessor"]

/-- The words that may stand before a method of a class. -/
def methodModifiers : List String := fieldModifiers ++ ["async", "get", "set"]

/-- Whether the last tree of a row has a child in the role `value`. -/
def endsWithValue (ts : List SyntaxTree) : Bool :=
  match ts.getLast? with
  | some t => (t.child? .value).isSome
  | none => false

/-- A phrase and the end of the statement that it makes up. Only after a value does an opening
bracket on the next line go on with it. -/
def terminated (p : Phrase) : Phrase := fun c => do
  let (ts, c₁) ← p c
  let (us, c₂) ← alt [mark ",", semicolon (endsWithValue ts)] c₁
  return (ts ++ us, c₂)

/-- A field of a class. -/
def field : Phrase :=
  node .fieldDefinition (seq [many (decorator self), many (modifier fieldModifiers),
    inRole .name (propertyName self), opt (alt [mark "?", mark "!"]), opt (typeClause self),
    opt (seq [mark "=", inRole .value (self (.assignment .free))])])

/-- What a method of a class begins with. -/
def methodHead : Phrase :=
  seq [many (decorator self), many (modifier methodModifiers), opt (mark "*"),
    inRole .name (propertyName self), opt (mark "?"), signature self]

/-- A member of a class. -/
def classMember : Phrase :=
  alt [
    mark ";",
    node .staticBlock (seq [word "static", inRole .body (self .block)]),
    terminated (indexSignature self),
    node .methodDefinition (seq [methodHead self, inRole .body (self .block)]),
    terminated (node .methodSignature (methodHead self)),
    terminated (field self)]

/-- The members of a class. -/
def classBody : Phrase := node .classBody (braces (many (classMember self)))

/-- What a class extends and implements. -/
def heritage : Phrase :=
  let extended := seq [self (.operand .inside), opt (typeArguments self)]
  node .classHeritage (alt [
    seq [word "extends", sepBy1 (mark ",") extended,
      opt (seq [word "implements", sepBy1 (mark ",") (self .type)])],
    seq [word "implements", sepBy1 (mark ",") (self .type)]])

/-- What follows the name of a class. -/
def classTail : Phrase :=
  seq [opt (typeParameters self), opt (heritage self), inRole .body (classBody self)]

/-- The name of a class. -/
def className : Phrase :=
  inRole .name (wordWhere .typeIdentifier fun w => w ≠ "extends" && w ≠ "implements")

/-- A class declaration. -/
def classDeclaration : Phrase :=
  node .classDeclaration (seq [many (decorator self), word "class", className, classTail self])

/-- The declaration of an abstract class. -/
def abstractClassDeclaration : Phrase :=
  node .abstractClassDeclaration
    (seq [many (decorator self), word "abstract", word "class", className, classTail self])

/-- A class as an operand; it may go without a name. -/
def classExpression : Phrase :=
  node .classExpression
    (seq [many (decorator self), word "class", opt className, classTail self])

/-- An interface. -/
def interfaceDeclaration : Phrase :=
  node .interfaceDeclaration (seq [word "interface", inRole .name (anyWord .typeIdentifier),
    opt (typeParameters self), opt (seq [word "extends", sepBy1 (mark ",") (self .type)]),
    inRole .body (objectType self)])

/-- An enumeration. -/
def enumDeclaration : Phrase :=
  let entry := node .enumMember (seq [inRole .name (propertyName self), opt (initializer self)])
  node .enumDeclaration (seq [opt (word "const"), word "enum", inRole .name (anyWord .identifier),
    inRole .body (node .enumBody (braces (commaList entry)))])

end PageReach.Script.Grammar
