import PageReach.Operation.Fact
import PageReach.Operation.Scope
import PageReach.Script.Source

/-!
# References to operations

A source refers to an operation where it calls a hook or a method of a client with it. The operation
is known by the type that the call is given, or by the first argument.
-/

namespace PageReach.Operation

open Script Text

/-! ### Arguments -/

/-- The keys under which an object holds a document. -/
def documentKeys : List String := ["query", "mutation"]

/-- Whether the key of a pair is one for documents. -/
def holdsDocument (pair : SyntaxTree) : Bool :=
  match pair.child? .key with
  | some key => documentKeys.contains (trim (fun c => c = '\x27' || c = '\x22') key.text)
  | none => false

/-- The operation that a static property of a named object holds. -/
def staticOperation? (s : Scope) (member property : SyntaxTree) : Option String :=
  match member.child? .object with
  | none => none
  | some owner =>
    if owner.kind = .identifier then Scope.lookup? s.statics (owner.text ++ "." ++ property.text)
    else none

/-- The operation that a property of an object stands for. -/
def propertyOperation? (s : Scope) (member : SyntaxTree) : Option String :=
  match member.child? .property with
  | none => none
  | some property =>
    if property.kind ≠ .propertyIdentifier then none
    else
      (staticOperation? s member property).or
        (if isPlaceholder property.text then none else cleanName? property.text)

/-- The operation that an argument without further ones below it stands for. -/
def plainArgument? (s : Scope) (t : SyntaxTree) : Option String :=
  match t.kind with
  | .identifier => s.resolve t.text
  | .memberExpression => propertyOperation? s t
  | .callExpression => embeddedName? t
  | .template => nameInText? (headText t)
  | _ => none

mutual

/-- The operation that an argument stands for. -/
def argument? (s : Scope) : SyntaxTree → Option String
  | .leaf k r p text => plainArgument? s (.leaf k r p text)
  | .node k r p ts =>
    match k with
    | .parenthesizedExpression | .asExpression | .satisfiesExpression | .nonNullExpression =>
      argumentFirst? s ts
    | .typeAssertion => (argumentLast? s ts).getD none
    | .object => argumentObject? s ts
    | _ => plainArgument? s (.node k r p ts)

/-- The operation that the first operand of a row stands for. -/
def argumentFirst? (s : Scope) : List SyntaxTree → Option String
  | [] => none
  | t :: ts => if t.isOperand then argument? s t else argumentFirst? s ts

/-- The operation that the last operand of a row stands for, if there is an operand. -/
def argumentLast? (s : Scope) : List SyntaxTree → Option (Option String)
  | [] => none
  | t :: ts => (argumentLast? s ts).or (if t.isOperand then some (argument? s t) else none)

/-- The operation of the first property in a row that holds a document. -/
def argumentObject? (s : Scope) : List SyntaxTree → Option String
  | [] => none
  | .node .pair r p cs :: ts =>
    if holdsDocument (.node .pair r p cs) then argumentValue? s cs else argumentObject? s ts
  | t :: ts =>
    if t.kind = .shorthandProperty && documentKeys.contains t.text then s.resolve t.text
    else argumentObject? s ts

/-- The operation that the value in a row stands for. -/
def argumentValue? (s : Scope) : List SyntaxTree → Option String
  | [] => none
  | t :: ts => if t.role = some .value then argument? s t else argumentValue? s ts

end

/-! ### Calls -/

/-- The last part of the name of a type that may be qualified. -/
def lastPart (t : SyntaxTree) : String :=
  match t.kind with
  | .nestedTypeIdentifier => (t.named.getLast?.map SyntaxTree.text).getD ""
  | _ => t.text

/-- The name of a type without what qualifies it or is given to it. -/
def nameOfType? (t : SyntaxTree) : Option String :=
  match t.kind with
  | .typeIdentifier | .nestedTypeIdentifier => some (lastPart t)
  | .genericType => ((t.child? .name).or t.named.head?).map lastPart
  | _ => none

/-- The name of the first type that a call is given. -/
def typeName? (call : SyntaxTree) : Option String :=
  ((call.child? .typeArguments).bind (·.operands.head?)).bind nameOfType?

/-- The operation that the type of a call speaks of. -/
def typeOperation? (call : SyntaxTree) : Option String :=
  (typeName? call).bind fun name =>
    if name = "" || isPlaceholder name then none else cleanName? name

/-- The operation that a call refers to; a call without arguments refers to none. -/
def operation? (s : Scope) (call : SyntaxTree) : Option String :=
  (firstArgument? call).bind fun a => (typeOperation? call).or (argument? s a)

/-- The name of the function that is called: its last part. -/
def calleeName? (callee : SyntaxTree) : Option String :=
  match callee.kind with
  | .identifier => some callee.text
  | .memberExpression => (callee.child? .property).map SyntaxTree.text
  | _ => none

/-- The kind of operation that a tree carries out, if it calls a hook, or a method of a client with
an object. -/
def callKind? (t : SyntaxTree) : Option OperationKind :=
  if t.kind ≠ .callExpression || isTagged t then none
  else
    match t.child? .callee with
    | none => none
    | some callee =>
      match calleeName? callee with
      | none | some "" => none
      | some name =>
        if isHook name then some (hookKind name)
        else if callee.kind = .memberExpression && (methodKind? name).isSome &&
            (firstArgument? t).any (·.kind = .object) then
          some (memberKind name)
        else none

/-- The calls of a source that carry out operations, in document order. -/
def calls (root : SyntaxTree) : List (SyntaxTree × OperationKind) :=
  (SyntaxTree.visit (fun _ => true) [root]).filterMap fun t => (callKind? t).map fun k => (t, k)

/-! ### Facts -/

/-- Adds a fact unless the same name is there with the same kind. -/
def addFact (facts : List Fact) (f : Fact) : List Fact :=
  if facts.any fun g => g.kind = f.kind && g.name = f.name then facts else facts ++ [f]

/-- The operations to which the calls of a source refer. -/
def factsOfTree (root : SyntaxTree) (file : String) (generated : Table String) : List Fact :=
  let scope := Scope.ofTree root generated
  let found := (calls root).filterMap fun (call, kind) =>
    (operation? scope call).map fun name => ⟨name, kind, file⟩
  found.foldl addFact []

/-- The operations to which a source refers. A source without a sign of operations is not read, and
one with a syntax error refers to none. -/
def factsOfSource (source file : String) (generated : Table String) : List Fact :=
  if hasSign source then
    match parseFile? file source with
    | some root => factsOfTree root file generated
    | none => []
  else []

end PageReach.Operation
