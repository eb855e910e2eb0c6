/-!
# Syntax trees of script sources

A tree is *lossless*: blanks and comments are leaves too, so the text of any node is the
concatenation of the texts of its leaves, and the text of the whole tree is the source it was read
from. Leaves and nodes carry a `Kind`, the `Role` they play in their parent, and the `Position` at
which they start.

Keywords and punctuation are leaves of kind `fixed`, told apart by their spelling. All kinds but
`fixed` and `space` are *named*; most analyses look at the named children only.
-/

namespace PageReach.Script

/-! ### Positions -/

/-- A place in a source: the number of UTF-8 bytes and of line feeds that stand before it. -/
structure Position where
  offset : Nat
  row : Nat
deriving DecidableEq, Repr, Inhabited

namespace Position

/-- The beginning of a source. -/
def origin : Position := ⟨0, 0⟩

/-- The place right after the character `c` standing at `p`. -/
def step (p : Position) (c : Char) : Position :=
  ⟨p.offset + c.utf8Size, if c = '\n' then p.row + 1 else p.row⟩

/-- The place after the characters `cs` standing at `p`. -/
def advance (p : Position) (cs : List Char) : Position := cs.foldl step p

/-- Lines are counted from one. -/
def line (p : Position) : Nat := p.row + 1

end Position

/-! ### Kinds and roles -/

/-- What a leaf or a node of a syntax tree is. -/
inductive Kind where
  -- leaves
  | space | comment | hashBang | fixed
  | identifier | propertyIdentifier | privateIdentifier | typeIdentifier | shorthandProperty
  | statementLabel | string | number | regex | templateText | markupText | markupName
  | trueLiteral | falseLiteral | nullLiteral | undefinedLiteral
  | thisReference | superReference | importReference
  -- modules
  | program | importStatement | importClause | namedImports | importSpecifier | namespaceImport
  | importRequireClause | importAlias | importAttribute
  | exportStatement | exportClause | exportSpecifier | namespaceExport
  -- declarations
  | functionDeclaration | functionSignature | classDeclaration | abstractClassDeclaration
  | classHeritage | classBody | methodDefinition | methodSignature | fieldDefinition | staticBlock
  | decorator | lexicalDeclaration | variableDeclaration | variableDeclarator
  | interfaceDeclaration | enumDeclaration | enumBody | enumMember | typeAliasDeclaration
  | moduleDeclaration | namespaceDeclaration | ambientDeclaration
  -- statements
  | expressionStatement | emptyStatement | block | ifStatement | elseClause | forStatement
  | forInStatement | whileStatement | doStatement | switchStatement | switchBody | switchCase
  | tryStatement | catchClause | finallyClause | withStatement | labeledStatement | breakStatement
  | continueStatement | returnStatement | throwStatement | debuggerStatement
  -- expressions
  | parenthesizedExpression | sequenceExpression | assignmentExpression | augmentedAssignment
  | ternaryExpression | binaryExpression | unaryExpression | updateExpression | awaitExpression
  | yieldExpression | asExpression | satisfiesExpression | typeAssertion | nonNullExpression
  | instantiationExpression | memberExpression | subscriptExpression | callExpression
  | newExpression | metaProperty | argumentList | spreadElement | object | pair | array
  | functionExpression | arrowFunction | classExpression | template | templateSubstitution
  | computedName
  -- patterns and parameters
  | objectPattern | arrayPattern | pairPattern | restPattern | assignmentPattern
  | formalParameters | parameter
  -- types
  | typeParameters | typeParameter | typeArguments | typeClause | nestedIdentifier
  | nestedTypeIdentifier | genericType | predefinedType | literalType | unionType
  | intersectionType | conditionalType | functionType | constructorType | objectType | arrayType
  | tupleType | lookupType | parenthesizedType | typeQuery | typeOperator | inferType
  | typePredicate | templateType | thisType | maybeType | propertySignature | callSignature
  | indexSignature
  -- markup
  | markupElement | markupAttribute | markupExpression
deriving DecidableEq, Repr, Inhabited

/-- Blanks and comments may stand between any two tokens. -/
def Kind.isTrivia : Kind → Bool
  | .space | .comment => true
  | _ => false

/-- Every kind but blanks and the tokens of fixed spelling is named. -/
def Kind.isNamed : Kind → Bool
  | .space | .fixed => false
  | _ => true

/-- The part that a tree plays in its parent. -/
inductive Role where
  | name | renamed | source | declaration | value | callee | arguments | typeArguments
  | object | property | key | left | right | body
deriving DecidableEq, Repr, Inhabited

/-! ### Trees -/

/-- A lossless syntax tree. -/
inductive SyntaxTree where
  | leaf (kind : Kind) (role : Option Role) (start : Position) (text : String)
  | node (kind : Kind) (role : Option Role) (start : Position) (children : List SyntaxTree)
deriving Inhabited

namespace SyntaxTree

/-- What the tree is. -/
def kind : SyntaxTree → Kind
  | leaf k _ _ _ | node k _ _ _ => k

/-- The part it plays in its parent. -/
def role : SyntaxTree → Option Role
  | leaf _ r _ _ | node _ r _ _ => r

/-- Where it starts. -/
def start : SyntaxTree → Position
  | leaf _ _ p _ | node _ _ p _ => p

/-- The trees right below; a leaf has none. -/
def children : SyntaxTree → List SyntaxTree
  | leaf _ _ _ _ => []
  | node _ _ _ ts => ts

mutual

/-- The characters of the leaves, from left to right. -/
def chars : SyntaxTree → List Char
  | leaf _ _ _ s => s.toList
  | node _ _ _ ts => charsOf ts

/-- The characters of a row of trees, from left to right. -/
def charsOf : List SyntaxTree → List Char
  | [] => []
  | t :: ts => chars t ++ charsOf ts

end

/-- The source text that the tree stands for. -/
def text (t : SyntaxTree) : String :=
  match t with
  | leaf _ _ _ s => s
  | node _ _ _ ts => String.ofList (charsOf ts)

/-- The same tree in another role. -/
def withRole (r : Role) : SyntaxTree → SyntaxTree
  | leaf k _ p s => leaf k (some r) p s
  | node k _ p ts => node k (some r) p ts

/-- The children that are neither blanks nor tokens of fixed spelling; comments are among them. -/
def named (t : SyntaxTree) : List SyntaxTree := t.children.filter (·.kind.isNamed)

/-- An operand is a named tree that is no comment. -/
def isOperand (t : SyntaxTree) : Bool := t.kind.isNamed && t.kind ≠ .comment

/-- The named children that are not comments. -/
def operands (t : SyntaxTree) : List SyntaxTree := t.children.filter isOperand

/-- The first child that plays the part `r`. -/
def child? (t : SyntaxTree) (r : Role) : Option SyntaxTree := t.children.find? (·.role = some r)

/-- The first named child of kind `k`. -/
def named? (t : SyntaxTree) (k : Kind) : Option SyntaxTree := t.named.find? (·.kind = k)

/-- Whether a token spelled like one of `words` is a child of the tree. -/
def hasToken (t : SyntaxTree) (words : List String) : Bool :=
  t.children.any fun c => c.kind = .fixed && words.contains c.text

mutual

/-- The tree and all trees below it in document order, where `enter` tells below which trees to
look. -/
def preorder (enter : SyntaxTree → Bool) : SyntaxTree → List SyntaxTree
  | leaf k r p s => [leaf k r p s]
  | node k r p ts =>
    node k r p ts :: if enter (node k r p ts) then preorderOf enter ts else []

/-- The trees of a row, each followed by the trees below it. -/
def preorderOf (enter : SyntaxTree → Bool) : List SyntaxTree → List SyntaxTree
  | [] => []
  | t :: ts => preorder enter t ++ preorderOf enter ts

end

mutual

/-- The number of leaves and nodes of a tree. -/
def weight : SyntaxTree → Nat
  | leaf _ _ _ _ => 1
  | node _ _ _ ts => weightOf ts + 1

/-- The number of leaves and nodes of a row of trees. -/
def weightOf : List SyntaxTree → Nat
  | [] => 0
  | t :: ts => weight t + weightOf ts

end

theorem weightOf_append (ts us : List SyntaxTree) :
    weightOf (ts ++ us) = weightOf ts + weightOf us := by
  induction ts with
  | nil => simp [weightOf]
  | cons t ts ih => simp [weightOf, ih, Nat.add_assoc]

theorem weightOf_children_lt (t : SyntaxTree) : weightOf t.children < weight t := by
  cases t <;> simp [children, weight, weightOf]

/-- Visits the trees of `pending` from the left, with the children of each entered tree before the
trees that were waiting. -/
def visit (enter : SyntaxTree → Bool) : (pending : List SyntaxTree) → List SyntaxTree
  | [] => []
  | t :: ts => t :: visit enter (if enter t then t.children ++ ts else ts)
termination_by pending => weightOf pending
decreasing_by
  have := weightOf_children_lt t
  split <;> simp only [weightOf, weightOf_append] <;> omega

/-! ### Expressions behind wrappers -/

mutual

/-- The expression behind all wrappers: parentheses, a type written after `as` or `satisfies` or in
front, and non-null marks. -/
def unwrap : SyntaxTree → SyntaxTree
  | leaf k r p s => leaf k r p s
  | node k r p ts =>
    match k with
    | .parenthesizedExpression | .asExpression | .satisfiesExpression | .nonNullExpression =>
      (unwrapFirst ts).getD (node k r p ts)
    | .typeAssertion => (unwrapLast ts).getD (node k r p ts)
    | _ => node k r p ts

/-- The first operand of a row, unwrapped. -/
def unwrapFirst : List SyntaxTree → Option SyntaxTree
  | [] => none
  | t :: ts => if t.isOperand then some (unwrap t) else unwrapFirst ts

/-- The last operand of a row, unwrapped. -/
def unwrapLast : List SyntaxTree → Option SyntaxTree
  | [] => none
  | t :: ts => (unwrapLast ts).or (if t.isOperand then some (unwrap t) else none)

end

/-! ### String literals -/

/-- The text between the quotes of a string literal; escapes stay as they are written. -/
def stringValue? (t : SyntaxTree) : Option String :=
  if t.kind = .string then
    match t.text.toList with
    | q :: rest =>
      if (q = '\x27' || q = '\x22') && rest.getLast? = some q then
        some (String.ofList rest.dropLast)
      else none
    | [] => none
  else none

/-- An identifier's text, or the value of a string literal in its place. -/
def nameText (t : SyntaxTree) : String := t.stringValue?.getD t.text

end SyntaxTree

end PageReach.Script
