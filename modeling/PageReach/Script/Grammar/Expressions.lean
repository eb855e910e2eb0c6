import PageReach.Script.Grammar.Types

/-!
# Expressions

Operands, operators and functions. Two places are read by trying: whether a parenthesis opens the
parameters of an arrow function, and whether an angle bracket after an operand opens type arguments.
-/

namespace PageReach.Script.Grammar

open Phrase

variable (dialect : Dialect) (self : Symbol → Phrase)

/-! ### Literals -/

/-- Words that are no identifiers where an operand is expected. -/
def operandWords : List String :=
  ["function", "class", "new", "this", "super", "null", "undefined", "true", "false", "typeof",
    "void", "delete", "await", "yield", "import"]

/-- A variable. -/
def variableName : Phrase := wordWhere .identifier fun w => !operandWords.contains w

/-- A template with expressions in it. -/
def template : Phrase := templateOf .template (self (.expression .inside))

/-- A function body follows the signature. -/
def method : Phrase :=
  node .methodDefinition (seq [many (modifier ["async", "get", "set"]), opt (mark "*"),
    inRole .name (propertyName self), signature self, inRole .body (self .block)])

/-- A member of an object literal. -/
def objectMember : Phrase :=
  alt [
    spread self,
    node .pair (seq [inRole .key (propertyName self), mark ":",
      inRole .value (self (.assignment .inside))]),
    method self,
    seq [anyWord .shorthandProperty, check (atMark [",", "\x7d"])]]

/-- An object literal. -/
def objectLiteral : Phrase := node .object (braces (commaListWithHoles (objectMember self)))

/-- An array literal. -/
def arrayLiteral : Phrase :=
  node .array (brackets (commaListWithHoles (alt [spread self, self (.assignment .inside)])))

/-- An expression in parentheses. -/
def parenthesized : Phrase :=
  node .parenthesizedExpression
    (parens (seq [self (.expression .inside), opt (typeClause self)]))

/-! ### Functions and classes as operands -/

/-- A function expression. -/
def functionExpression : Phrase :=
  node .functionExpression (seq [opt (word "async"), word "function", opt (mark "*"),
    opt (inRole .name (anyWord .identifier)), signature self, inRole .body (self .block)])

/-- What an arrow function computes. -/
def arrowBody (c : Context) : Phrase := fun cur =>
  if cur.head? = some '{' then inRole .body (self .block) cur
  else inRole .body (self (.assignment c)) cur

/-- An arrow function with its parameters in parentheses. -/
def arrowFunction (c : Context) : Phrase :=
  node .arrowFunction (seq [opt (seq [word "async", check onLine]), opt (typeParameters self),
    formalParameters self, if c.bareArrows then nothing else opt (resultClause self),
    check onLine, mark "=>", arrowBody self c])

/-- An arrow function of one plain parameter. -/
def singleArrow (c : Context) : Phrase :=
  node .arrowFunction (seq [opt (seq [word "async", check onLine]), anyWord .identifier,
    check onLine, mark "=>", arrowBody self c])

/-! ### Members and calls -/

/-- A property after a point. -/
def memberName : Phrase := inRole .property (alt [anyWord .propertyIdentifier, privateName])

/-- Member accesses that may follow the operand of `new`. -/
def memberStep (left : List SyntaxTree) : Phrase := fun c =>
  match c.mark? with
  | some "." => extend .memberExpression (some .object) left (seq [mark ".", memberName]) c
  | some "[" =>
    extend .subscriptExpression (some .object) left (brackets (self (.expression .inside))) c
  | some "!" => guarded onLine (extend .nonNullExpression none left (mark "!")) c
  | _ =>
    if c.head? = some '\x60' then
      extend .callExpression (some .callee) left (inRole .arguments (template self)) c
    else none

/-- Marks that may follow type arguments to which no call belongs. -/
def afterInstantiation : List String :=
  [")", "]", ",", ";", ":", "\x7d", ".", "?.", "=", "?", "&&", "||", "??", "==", "===", "!=", "!==",
    "&", "|", "^", "*", "%"]

/-- Member accesses, calls and type arguments. -/
def operandStep (left : List SyntaxTree) : Phrase := fun c =>
  match c.mark? with
  | some "(" =>
    extend .callExpression (some .callee) left (inRole .arguments (callArguments self)) c
  | some "?." =>
    alt [
      extend .memberExpression (some .object) left (seq [mark "?.", memberName]),
      extend .subscriptExpression (some .object) left
        (seq [mark "?.", brackets (self (.expression .inside))]),
      extend .callExpression (some .callee) left (seq [mark "?.",
        opt (inRole .typeArguments (typeArguments self)),
        inRole .arguments (callArguments self)])] c
  | some "<" =>
    alt [
      extend .callExpression (some .callee) left (seq [
        inRole .typeArguments (typeArguments self),
        inRole .arguments (alt [callArguments self, template self])]),
      extend .instantiationExpression none left (seq [typeArguments self,
        check fun d => d.head?.isNone || d.crossesLine || atMark afterInstantiation d])] c
  | _ => memberStep self left c

/-- A new object, or the meta-property of `new`. -/
def newExpression : Phrase :=
  alt [
    node .metaProperty (seq [word "new", mark ".", word "target"]),
    node .newExpression (seq [word "new", self .constructed, opt (inRole .typeArguments
      (seq [typeArguments self, check fun d => !d.crossesLine || atMark ["("] d])),
      opt (inRole .arguments (callArguments self))])]

/-- The import function, or the meta-property of `import`. -/
def importOperand : Phrase :=
  alt [
    node .metaProperty (seq [word "import", mark ".", word "meta"]),
    seq [wordAs .importReference "import", check (atMark ["(", "."])]]

/-- An operand that begins with a word. -/
def wordOperand (classExpression : Phrase) (w : String) : Phrase :=
  match w with
  | "function" => functionExpression self
  | "async" => alt [seq [check fun c => c.word? = some "async", functionExpression self],
      variableName]
  | "class" => classExpression
  | "new" => newExpression self
  | "import" => importOperand
  | "this" => anyWord .thisReference
  | "super" => anyWord .superReference
  | "null" => anyWord .nullLiteral
  | "undefined" => anyWord .undefinedLiteral
  | "true" => anyWord .trueLiteral
  | "false" => anyWord .falseLiteral
  | _ => variableName

/-- An operand without accesses and calls. -/
def primary (classExpression : Phrase) : Phrase := fun c =>
  match c.word? with
  | some w => wordOperand self classExpression w c
  | none =>
    match c.head? with
    | some '(' => parenthesized self c
    | some '[' => arrayLiteral self c
    | some '{' => objectLiteral self c
    | some '\x60' => template self c
    | some '\x27' | some '\x22' => stringLiteral c
    | some '/' => lexeme .regex regex? c
    | some '#' => seq [privateName, check (atWord "in")] c
    | some '@' => classExpression c
    | some '<' => when (dialect = .markup) (self .element) c
    | some _ => numberLiteral c
    | none => none

/-- An operand before its accesses and calls, where it may be an arrow function. -/
def operandHead (c : Context) (classExpression : Phrase) : Phrase := fun cur =>
  let other := primary dialect self classExpression
  match cur.word? with
  | some "async" => alt [arrowFunction self c, singleArrow self c, other] cur
  | some _ =>
    match anyWord .identifier cur with
    | some (_, c₁) => if atMark ["=>"] c₁ && onLine c₁ then singleArrow self c cur else other cur
    | none => other cur
  | none =>
    match cur.head? with
    | some '(' | some '<' => alt [arrowFunction self c, other] cur
    | _ => other cur

/-! ### Operators -/

/-- How tightly the binary operators bind; greater binds tighter. -/
def operatorLevel : String → Option Nat
  | "??" | "||" => some 1
  | "&&" => some 2
  | "|" => some 3
  | "^" => some 4
  | "&" => some 5
  | "==" | "!=" | "===" | "!==" => some 6
  | "<" | ">" | "<=" | ">=" | "in" | "instanceof" | "as" | "satisfies" => some 7
  | "<<" | ">>" | ">>>" => some 8
  | "+" | "-" => some 9
  | "*" | "/" | "%" => some 10
  | "**" => some 11
  | _ => none

/-- The operators that set a variable anew from its old value. -/
def augmentedMarks : List String :=
  ["+=", "-=", "*=", "/=", "%=", "^=", "&=", "|=", ">>=", ">>>=", "<<=", "**=", "&&=", "||=", "??="]

/-- The right operand of an operator of level `n`; only exponentiation groups to the right. -/
def rightOperand (c : Context) (n : Nat) : Phrase :=
  self (.binary c (if n = 11 then n else n + 1))

/-- Goes on with an operator of level `level` or tighter and its right operand. -/
def binaryStep (c : Context) (level : Nat) (left : List SyntaxTree) : Phrase := fun cur =>
  match cur.word? with
  | some w =>
    if level ≤ 7 then
      if (w = "in" && !c.loopHead) || w = "instanceof" then
        extend .binaryExpression none left (seq [word w, rightOperand self c 7]) cur
      else if c.enclosed || onLine cur then
        if w = "as" then
          extend .asExpression none left (seq [word "as", alt [word "const", self .type]]) cur
        else if w = "satisfies" then
          extend .satisfiesExpression none left (seq [word "satisfies", self .type]) cur
        else none
      else none
    else none
  | none =>
    match cur.mark? with
    | some m =>
      match operatorLevel m with
      | some n =>
        if level ≤ n then
          extend .binaryExpression none left (seq [mark m, rightOperand self c n]) cur
        else none
      | none => none
    | none => none

/-- Binary operators of level `level` and tighter. -/
def binaryRule (c : Context) (level : Nat) : Phrase :=
  grow (self (.unary c)) (binaryStep self c level)

/-- The kinds of expressions that an assignment may set. -/
def isTarget (ts : List SyntaxTree) : Bool :=
  match kindOf ts with
  | some .identifier | some .memberExpression | some .subscriptExpression
  | some .parenthesizedExpression | some .nonNullExpression | some .undefinedLiteral => true
  | _ => false

/-- Goes on with an assignment to the operand `left`. -/
def assignmentStep (c : Context) (left : List SyntaxTree) : Phrase := fun cur =>
  if isTarget left then
    match cur.mark? with
    | some "=" =>
      extend .assignmentExpression (some .left) left
        (seq [mark "=", inRole .right (self (.assignment c))]) cur
    | some m =>
      if augmentedMarks.contains m then
        extend .augmentedAssignment (some .left) left
          (seq [mark m, inRole .right (self (.assignment c))]) cur
      else none
    | none => none
  else none

/-- An assignment to the parts of a pattern. -/
def destructured (c : Context) : Phrase :=
  node .assignmentExpression (seq [inRole .left (self (.pattern true)), mark "=",
    inRole .right (self (.assignment c))])

/-- An operand that a step by one or an assignment may follow. No operator binds an operand away
from the assignment to it, so `a + b = c` sets `b`. -/
def updated (c : Context) : Phrase := fun cur => do
  let (ts, c₁) ← self (.operand c) cur
  (guarded onLine (extend .updateExpression none ts (alt [mark "++", mark "--"])) c₁).or
    ((assignmentStep self c ts c₁).or (some (ts, c₁)))

/-- Unary operators and what they apply to. -/
def unaryRule (c : Context) : Phrase := fun cur =>
  let applied (k : Kind) (op : Phrase) : Phrase := node k (seq [op, self (.unary c)])
  match cur.word? with
  | some w =>
    if w = "typeof" || w = "void" || w = "delete" then applied .unaryExpression (word w) cur
    else if w = "await" then applied .awaitExpression (word "await") cur
    else updated self c cur
  | none =>
    match cur.mark? with
    | some "\x7b" | some "[" => alt [destructured self c, updated self c] cur
    | some "!" => applied .unaryExpression (mark "!") cur
    | some "~" => applied .unaryExpression (mark "~") cur
    | some "-" => applied .unaryExpression (mark "-") cur
    | some "+" => applied .unaryExpression (mark "+") cur
    | some "++" => applied .updateExpression (mark "++") cur
    | some "--" => applied .updateExpression (mark "--") cur
    | some "<" =>
      if dialect = .plain then
        alt [updated self c, applied .typeAssertion (typeArguments self)] cur
      else updated self c cur
    | _ => updated self c cur

/-- A choice between two values. -/
def conditional (c : Context) : Phrase := fun cur => do
  let (ts, c₁) ← self (.binary c 0) cur
  let branches (inner : Context) : Phrase :=
    seq [mark "?", self (.assignment inner), mark ":", self (.assignment c)]
  ((extend .ternaryExpression none ts (branches { c with loopHead := false })) c₁).or
    (((extend .ternaryExpression none ts
      (branches { c with loopHead := false, bareArrows := true })) c₁).or (some (ts, c₁)))

/-- A pause of a generator. -/
def yieldExpression (c : Context) : Phrase :=
  alt [
    node .yieldExpression (seq [word "yield", mark "*", self (.assignment c)]),
    node .yieldExpression (seq [word "yield", check onLine, self (.assignment c)]),
    node .yieldExpression (word "yield")]

/-- An expression without a comma at its top. -/
def assignmentRule (c : Context) : Phrase := fun cur =>
  if atWord "yield" cur then yieldExpression self c cur else conditional self c cur

/-- Expressions with commas between them. -/
def expressionRule (c : Context) : Phrase := fun cur => do
  let (ts, c₁) ← self (.assignment c) cur
  (extend .sequenceExpression none ts (many1 (seq [mark ",", self (.assignment c)])) c₁).or
    (some (ts, c₁))

end PageReach.Script.Grammar
