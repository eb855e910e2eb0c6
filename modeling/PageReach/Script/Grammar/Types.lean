import PageReach.Script.Grammar.Symbol

/-!
# Types, parameters and patterns

The rules for what follows a colon or stands between angle brackets, and for the parameter lists
and binding patterns in which types occur.
-/

namespace PageReach.Script.Grammar

open Phrase

variable (self : Symbol → Phrase)

/-! ### Arguments and type arguments -/

/-- An argument or element preceded by three dots. -/
def spread : Phrase := node .spreadElement (seq [mark "...", self (.assignment .inside)])

/-- The arguments of a call. -/
def callArguments : Phrase :=
  node .argumentList (parens (commaListWithHoles (alt [spread self, self (.assignment .inside)])))

/-- Types in angle brackets. -/
def typeArguments : Phrase :=
  node .typeArguments (seq [mark "<", sepBy1 (mark ",") (self .type), opt (mark ","), chars ">"])

/-- What a decorator applies: a name with points in it, called at most once. -/
def decoratorTarget : Phrase := fun c => do
  let (ts, c₁) ← grow (anyWord .identifier) (fun left =>
    extend .memberExpression (some .object) left
      (seq [mark ".", inRole .property (anyWord .propertyIdentifier)])) c
  (extend .callExpression (some .callee) ts (seq [opt (inRole .typeArguments (typeArguments self)),
    inRole .arguments (callArguments self)]) c₁).or (some (ts, c₁))

/-- A decorator. -/
def decorator : Phrase :=
  node .decorator (seq [mark "@", alt [
    node .parenthesizedExpression (parens (decoratorTarget self)), decoratorTarget self]])

/-- A type after a colon. -/
def typeClause : Phrase := node .typeClause (seq [mark ":", self .type])

/-! ### Parameters -/

/-- A declared type parameter. -/
def typeParameter : Phrase :=
  node .typeParameter (seq [opt (word "const"), inRole .name (anyWord .typeIdentifier),
    opt (seq [word "extends", self .type]), opt (seq [mark "=", self .type])])

/-- Type parameters in angle brackets. -/
def typeParameters : Phrase :=
  node .typeParameters
    (seq [mark "<", sepBy1 (mark ",") (typeParameter self), opt (mark ","), chars ">"])

/-- A default value. -/
def initializer : Phrase := seq [mark "=", self (.assignment .inside)]

/-- A parameter of a function. -/
def parameter : Phrase :=
  let core := alt [
    seq [node .restPattern (seq [mark "...", self (.pattern false)]), opt (typeClause self)],
    seq [self (.pattern false), opt (mark "?"), opt (typeClause self),
      opt (initializer self)]]
  node .parameter (seq [many (decorator self),
    alt [seq [many1 (wordOf ["public", "private", "protected", "override", "readonly"]), core],
      core]])

/-- The parameters of a function. -/
def formalParameters : Phrase := node .formalParameters (parens (commaList (parameter self)))

/-- What a function results in: a type, a condition on a parameter, or an assertion. -/
def resultType : Phrase :=
  alt [
    node .typePredicate (seq [word "asserts", guarded onLine (anyWord .identifier),
      opt (seq [word "is", self .type])]),
    node .typePredicate (seq [anyWord .identifier, word "is", self .type]),
    self .type]

/-- What a function results in, after a colon. -/
def resultClause : Phrase := node .typeClause (seq [mark ":", resultType self])

/-- Type parameters, parameters and result of a function. -/
def signature : Phrase :=
  seq [opt (typeParameters self), formalParameters self, opt (resultClause self)]

/-! ### Patterns -/

/-- What an element of an assignment pattern sets: a variable, or a member of one. -/
def assignmentTarget : Phrase :=
  grow (anyWord .identifier) fun left => alt [
    extend .memberExpression (some .object) left
      (seq [mark ".", inRole .property (alt [anyWord .propertyIdentifier, privateName])]),
    extend .subscriptExpression (some .object) left (brackets (self (.expression .inside))),
    extend .nonNullExpression none left (mark "!")]

/-- A pattern with an optional default. -/
def patternWithDefault (assigning : Bool) : Phrase := fun c => do
  let (ts, c₁) ← self (.pattern assigning) c
  (extend .assignmentPattern none ts (initializer self) c₁).or (some (ts, c₁))

/-- A name bound to the rest. -/
def restPattern (assigning : Bool) : Phrase :=
  node .restPattern (seq [mark "...", self (.pattern assigning)])

/-- A variable, or a pattern in braces or brackets. -/
def patternRule (assigning : Bool) : Phrase := fun c =>
  match c.head? with
  | some '{' =>
    node .objectPattern (braces (commaListWithHoles (alt [
      restPattern self assigning,
      node .pairPattern (seq [propertyName self, mark ":", patternWithDefault self assigning]),
      node .assignmentPattern (seq [anyWord .shorthandProperty, opt (initializer self)])]))) c
  | some '[' =>
    node .arrayPattern (brackets (commaListWithHoles (alt [
      restPattern self assigning, patternWithDefault self assigning]))) c
  | _ => if assigning then assignmentTarget self c else anyWord .identifier c

/-! ### Members of object types -/

/-- A key in brackets: an index with its type, or the keys a mapped type runs through. -/
def indexSignature : Phrase :=
  let sign := alt [mark "+", mark "-"]
  node .indexSignature (seq [
    opt (alt [seq [sign, word "readonly"], modifier ["readonly"]]),
    many (modifier ["static", "public", "private", "protected", "declare"]),
    mark "[", anyWord .identifier,
    alt [seq [mark ":", self .type],
      seq [word "in", self .type, opt (seq [word "as", self .type])]],
    mark "]", opt (seq [opt sign, mark "?"]), opt (typeClause self)])

/-- The words that may stand before a member of an object type. -/
def memberModifiers : List String :=
  ["readonly", "get", "set", "async", "static", "public", "private", "protected", "override",
    "declare"]

/-- A member of an object type. -/
def typeMember : Phrase :=
  alt [
    indexSignature self,
    node .callSignature (seq [opt (word "abstract"), word "new", signature self]),
    node .callSignature (signature self),
    node .methodSignature (seq [many (modifier memberModifiers), opt (mark "*"),
      inRole .name (propertyName self), opt (mark "?"), signature self]),
    node .propertySignature (seq [many (modifier memberModifiers),
      inRole .name (propertyName self), opt (mark "?"), opt (typeClause self)])]

/-- An object type; its members are divided by commas, semicolons or line ends. -/
def objectType : Phrase :=
  let divider := alt [mark ",", semicolon false]
  node .objectType (braces (opt (seq [opt (alt [mark ",", mark ";"]), typeMember self,
    many (seq [divider, typeMember self]), opt divider])))

/-! ### Types -/

/-- The words that name built-in types. -/
def builtinTypes : List String :=
  ["any", "number", "boolean", "string", "symbol", "void", "unknown", "never", "object"]

/-- A member of a tuple type, with or without a name. -/
def tupleMember : Phrase :=
  alt [
    seq [mark "...", opt (seq [anyWord .identifier, mark ":"]), self .type],
    seq [anyWord .identifier, opt (mark "?"), mark ":", self .type],
    seq [self .type, opt (mark "?")]]

/-- A call that imports a module, followed by member accesses. -/
def importedMember : Phrase :=
  grow
    (node .callExpression (seq [inRole .callee (wordAs .importReference "import"),
      inRole .arguments (callArguments self)]))
    fun left => extend .memberExpression (some .object) left
      (seq [mark ".", inRole .property (anyWord .propertyIdentifier)])

/-- A named type, possibly of a module and with arguments. -/
def typeReference : Phrase := fun c => do
  let (ts, c₁) ← grow (anyWord .typeIdentifier) (fun left =>
    extend .nestedTypeIdentifier none left
      (seq [mark ".", inRole .name (anyWord .typeIdentifier)])) c
  (extend .genericType (some .name) ts (inRole .typeArguments (typeArguments self)) c₁).or
    (some (ts, c₁))

/-- The type of a variable or of a member of one. -/
def typeQuery : Phrase :=
  node .typeQuery (seq [word "typeof",
    grow (alt [importedMember self, wordAs .thisReference "this", anyWord .identifier])
      fun left => alt [
        extend .memberExpression (some .object) left (seq [alt [mark ".", mark "?."],
          inRole .property (alt [anyWord .propertyIdentifier, privateName])]),
        guarded onLine (extend .subscriptExpression (some .object) left
          (brackets (alt [stringLiteral, numberLiteral]))),
        guarded onLine (extend .instantiationExpression none left (typeArguments self))]])

/-- A type that begins with a word. -/
def wordType (w : String) : Phrase :=
  if builtinTypes.contains w then anyWord .predefinedType
  else if ["true", "false", "null", "undefined"].contains w then anyWord .literalType
  else if w = "this" then anyWord .thisType
  else if w = "import" then importedMember self
  else if w = "typeof" then alt [typeQuery self, typeReference self]
  else if w = "unique" then
    alt [node .predefinedType (seq [word "unique", word "symbol"]), typeReference self]
  else typeReference self

/-- A type without operators. -/
def primaryType : Phrase := fun c =>
  match c.word? with
  | some w => wordType self w c
  | none =>
    match c.head? with
    | some '(' => node .parenthesizedType (parens (self .type)) c
    | some '[' => node .tupleType (brackets (commaList (tupleMember self))) c
    | some '{' => objectType self c
    | some '\x60' => templateOf .templateType (self .type) c
    | some '-' => node .literalType (seq [mark "-", numberLiteral]) c
    | some '?' => node .maybeType (seq [mark "?", self .typeOperand]) c
    | some _ => node .literalType (alt [stringLiteral, numberLiteral]) c
    | none => none

/-- A type with the brackets that follow it. -/
def suffixedType : Phrase := fun c =>
  if atWord "import" c then primaryType self c
  else
    grow (primaryType self) (fun left => guarded onLine (alt [
      extend .arrayType none left (seq [mark "[", mark "]"]),
      extend .lookupType none left (brackets (self .type))])) c

/-- A type with the type operators in front of it. -/
def typeOperandRule : Phrase := fun c =>
  match c.word? with
  | some "keyof" =>
    alt [node .typeOperator (seq [word "keyof", self .typeOperand]), suffixedType self] c
  | some "readonly" =>
    alt [node .typeOperator (seq [word "readonly", self .typeOperand]), suffixedType self] c
  | some "infer" =>
    alt [
      node .inferType (seq [word "infer", anyWord .typeIdentifier,
        opt (seq [word "extends", self .type])]),
      suffixedType self] c
  | _ => suffixedType self c

/-- A function type. -/
def functionType : Phrase :=
  node .functionType (seq [opt (typeParameters self), formalParameters self, mark "=>",
    resultType self])

/-- The type of a constructor. -/
def constructorType : Phrase :=
  node .constructorType (seq [opt (word "abstract"), word "new", opt (typeParameters self),
    formalParameters self, mark "=>", self .type])

/-- Types joined by bars, each of types joined by ampersands. -/
def unionType : Phrase :=
  let part := alt [guarded (fun c => c.head? = some '(' || c.head? = some '<') (functionType self),
    self .typeOperand]
  operatorChain .unionType "|" (operatorChain .intersectionType "&" part)

/-- A type that is no conditional type. -/
def plainType : Phrase := fun c =>
  if c.head? = some '(' || c.head? = some '<' then
    alt [functionType self, unionType self] c
  else if atWord "new" c || atWord "abstract" c then
    alt [constructorType self, unionType self] c
  else unionType self c

/-- A type. -/
def typeRule : Phrase := fun c => do
  let (ts, c₁) ← plainType self c
  (extend .conditionalType none ts (seq [word "extends", plainType self, mark "?", self .type,
    mark ":", self .type]) c₁).or (some (ts, c₁))

end PageReach.Script.Grammar
