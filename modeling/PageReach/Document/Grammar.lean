import PageReach.Document.Token
import PageReach.Operation.Kind

/-!
# GraphQL documents

A document is a row of definitions: operations, fragments, and definitions and extensions of types.
Here it is recognised whether a text is a document, and which named operations it defines.
-/

namespace PageReach.Document

/-- Recognises something at the front of a row of tokens and leaves the rest. -/
abbrev Rule := List Token → Option (List Token)

/-! ### Combinators -/

/-- Rules one after the other. -/
def seq (rules : List Rule) : Rule := fun ts => rules.foldlM (fun ts rule => rule ts) ts

/-- A given token. -/
def expect (t : Token) : Rule
  | u :: ts => if u = t then some ts else none
  | [] => none

/-- A punctuator. -/
def mark (c : Char) : Rule := expect (.mark c)

/-- A name that has a given spelling. -/
def keyword (s : String) : Rule := expect (.name s)

/-- A name that satisfies `p`. -/
def nameWhere (p : String → Bool) : Rule
  | .name s :: ts => if p s then some ts else none
  | _ => none

/-- A name. -/
def name : Rule := nameWhere fun _ => true

/-- A rule if the next token is `t`, and nothing otherwise. -/
def ifNext (t : Token) (rule : Rule) : Rule := fun ts =>
  if ts.head? = some t then rule ts else some ts

/-- A rule as often as it applies; each time it has to read a token. -/
def many (rule : Rule) (ts : List Token) : Option (List Token) :=
  match rule ts with
  | none => some ts
  | some rest => if rest.length < ts.length then many rule rest else some ts
termination_by ts.length

/-- At least one item between two punctuators. -/
def block (first last : Char) (item : Rule) : Rule :=
  seq [mark first, item, many item, mark last]

/-- Such a block, or nothing. -/
def optionalBlock (first last : Char) (item : Rule) : Rule :=
  ifNext (.mark first) (block first last item)

/-- Items with a punctuator between them, and perhaps one in front. -/
def delimited (c : Char) (item : Rule) : Rule :=
  seq [ifNext (.mark c) (mark c), item, many (seq [mark c, item])]

/-! ### Values and types -/

/-- A value; a constant one holds no variables. -/
def value (constant : Bool) : (fuel : Nat) → Rule
  | 0 => fun _ => none
  | fuel + 1 => fun ts =>
    match ts with
    | .mark '[' :: rest => seq [many (value constant fuel), mark ']'] rest
    | .mark '\x7b' :: rest =>
      seq [many (seq [name, mark ':', value constant fuel]), mark '\x7d'] rest
    | .mark '$' :: rest => if constant then none else name rest
    | .number :: rest | .text :: rest | .name _ :: rest => some rest
    | _ => none

/-- A reference to a type. -/
def type : (fuel : Nat) → Rule
  | 0 => fun _ => none
  | fuel + 1 => fun ts =>
    let inner : Rule := if ts.head? = some (.mark '[') then
      seq [mark '[', type fuel, mark ']'] else name
    seq [inner, ifNext (.mark '!') (mark '!')] ts

/-- Arguments, if there are any. -/
def arguments (constant : Bool) (fuel : Nat) : Rule :=
  optionalBlock '(' ')' (seq [name, mark ':', value constant fuel])

/-- Directives. -/
def directives (constant : Bool) (fuel : Nat) : Rule :=
  many (seq [mark '@', name, arguments constant fuel])

/-- A default value, if there is one. -/
def default (fuel : Nat) : Rule := ifNext (.mark '=') (seq [mark '=', value true fuel])

/-! ### Selections -/

/-- The selections between braces. -/
def selections : (fuel : Nat) → Rule
  | 0 => fun _ => none
  | fuel + 1 =>
    let nested : Rule := ifNext (.mark '\x7b') (selections fuel)
    let field : Rule := seq [name, ifNext (.mark ':') (seq [mark ':', name]),
      arguments false fuel, directives false fuel, nested]
    let spread : Rule := fun ts =>
      match ts with
      | .name "on" :: rest => seq [name, directives false fuel, selections fuel] rest
      | .name _ :: rest => directives false fuel rest
      | _ => seq [directives false fuel, selections fuel] ts
    block '\x7b' '\x7d' fun ts =>
      match ts with
      | .spread :: rest => spread rest
      | _ => field ts

/-- The definition of a variable. -/
def variableDefinition (fuel : Nat) : Rule :=
  seq [mark '$', name, mark ':', type fuel, default fuel, directives true fuel]

/-- An operation after the word for its kind and its name. -/
def operationBody (fuel : Nat) : Rule :=
  seq [optionalBlock '(' ')' (variableDefinition fuel), directives false fuel, selections fuel]

/-- A fragment. -/
def fragment (fuel : Nat) : Rule :=
  seq [keyword "fragment", nameWhere (· ≠ "on"), keyword "on", name, directives false fuel,
    selections fuel]

/-! ### Types -/

/-- A description, if there is one. -/
def description : Rule := ifNext .text (expect .text)

/-- An argument or input field. -/
def inputValue (fuel : Nat) : Rule :=
  seq [description, name, mark ':', type fuel, default fuel, directives true fuel]

/-- A field of an object type or an interface. -/
def fieldDefinition (fuel : Nat) : Rule :=
  seq [description, name, optionalBlock '(' ')' (inputValue fuel), mark ':', type fuel,
    directives true fuel]

/-- The operation types of a schema. -/
def operationType : Rule :=
  seq [nameWhere ["query", "mutation", "subscription"].contains, mark ':', name]

/-- The interfaces that a type implements. -/
def implementations : Rule :=
  ifNext (.name "implements") (seq [keyword "implements", delimited '&' name])

/-- A value of an enumeration. -/
def enumValue (fuel : Nat) : Rule :=
  seq [description, nameWhere fun s => !(["true", "false", "null"].contains s),
    directives true fuel]

/-- The members of a union. -/
def unionMembers : Rule := ifNext (.mark '=') (seq [mark '=', delimited '|' name])

/-- The places where a directive may stand. -/
def locations : List String :=
  ["QUERY", "MUTATION", "SUBSCRIPTION", "FIELD", "FRAGMENT_DEFINITION", "FRAGMENT_SPREAD",
    "INLINE_FRAGMENT", "VARIABLE_DEFINITION", "SCHEMA", "SCALAR", "OBJECT", "FIELD_DEFINITION",
    "ARGUMENT_DEFINITION", "INTERFACE", "UNION", "ENUM", "ENUM_VALUE", "INPUT_OBJECT",
    "INPUT_FIELD_DEFINITION"]

/-- What may follow the name in the definition or extension of a type, by the word in front. -/
def typeParts (fuel : Nat) (word : String) : Option (List Rule) :=
  let fields := optionalBlock '\x7b' '\x7d' (fieldDefinition fuel)
  match word with
  | "scalar" => some [directives true fuel]
  | "type" | "interface" => some [implementations, directives true fuel, fields]
  | "union" => some [directives true fuel, unionMembers]
  | "enum" => some [directives true fuel, optionalBlock '\x7b' '\x7d' (enumValue fuel)]
  | "input" => some [directives true fuel, optionalBlock '\x7b' '\x7d' (inputValue fuel)]
  | _ => none

/-- The definition of a directive, after the word for it. -/
def directiveDefinition (fuel : Nat) : Rule :=
  seq [mark '@', name, optionalBlock '(' ')' (inputValue fuel),
    ifNext (.name "repeatable") (keyword "repeatable"), keyword "on",
    delimited '|' (nameWhere locations.contains)]

/-- The definition of a type, a schema or a directive. -/
def typeDefinition (fuel : Nat) : Rule
  | .name "schema" :: rest =>
    seq [directives true fuel, block '\x7b' '\x7d' operationType] rest
  | .name "directive" :: rest => directiveDefinition fuel rest
  | .name word :: rest => (typeParts fuel word).bind fun parts => seq (name :: parts) rest
  | _ => none

/-- Rules that have to read something. -/
def nonempty (rules : List Rule) : Rule := fun ts =>
  (seq rules ts).bind fun rest => if rest.length < ts.length then some rest else none

/-- The extension of a type or a schema, after the word for it. -/
def extension (fuel : Nat) : Rule
  | .name "schema" :: rest =>
    nonempty [directives true fuel, optionalBlock '\x7b' '\x7d' operationType] rest
  | .name word :: rest =>
    (typeParts fuel word).bind fun parts => (name rest).bind (nonempty parts)
  | _ => none

/-! ### Documents -/

/-- A named operation. -/
structure NamedOperation where
  name : String
  kind : OperationKind
deriving DecidableEq, Repr, Inhabited

/-- The kind that begins an operation. -/
def kindOfWord? : String → Option OperationKind
  | "query" => some .query
  | "mutation" => some .mutation
  | "subscription" => some .subscription
  | _ => none

/-- A definition, with the operation if it is a named one. -/
def definition? (fuel : Nat) (ts : List Token) : Option (Option NamedOperation × List Token) :=
  match ts with
  | .mark '\x7b' :: _ => (selections fuel ts).map (none, ·)
  | .text :: rest => (typeDefinition fuel rest).map (none, ·)
  | .name "fragment" :: _ => (fragment fuel ts).map (none, ·)
  | .name "extend" :: rest => (extension fuel rest).map (none, ·)
  | .name word :: rest =>
    match kindOfWord? word with
    | none => (typeDefinition fuel ts).map (none, ·)
    | some kind =>
      match rest with
      | .name n :: more => (operationBody fuel more).map (some ⟨n, kind⟩, ·)
      | _ => (operationBody fuel rest).map (none, ·)
  | _ => none

/-- The named operations of definitions that take up all tokens. -/
def definitions? (depth : Nat) : (fuel : Nat) → List Token → Option (List NamedOperation)
  | 0, _ => none
  | fuel + 1, ts =>
    match definition? depth ts with
    | none => none
    | some (operation, []) => some operation.toList
    | some (operation, rest) => (definitions? depth fuel rest).map (operation.toList ++ ·)

/-- The named operations of a document; `none` if the text is no document. -/
def operations? (source : String) : Option (List NamedOperation) :=
  (tokens? source).bind fun ts => definitions? (ts.length + 1) (ts.length + 1) ts

end PageReach.Document
