import PageReach.Operation.Embedded
import PageReach.Table

/-!
# Names in scope

What the names of a source stand for: documents that it imports, variables and static properties
that hold embedded documents or stand for other documents, and documents that are generated
elsewhere.
-/

namespace PageReach.Operation

open Script Text

/-- What the names of a source stand for. -/
structure Scope where
  /-- Imported names and the operations they speak of. -/
  imports : Table String := .empty
  /-- Variables, and the operations or other names they stand for. -/
  bindings : Table String := .empty
  /-- Static properties and their operations. -/
  statics : Table String := .empty
  /-- Documents that are generated elsewhere, and their operations. -/
  generated : Table String := .empty
deriving Repr, Inhabited

namespace Scope

/-- The endings of names that stand for documents. -/
def documentEndings : List String := ["Document", "Query", "Mutation"]

/-- Whether a name has one of the endings of documents. -/
def isDocumentName (name : String) : Bool := documentEndings.any (endsWith name)

/-! ### Imports -/

/-- Whether a specifier names generated documents. -/
def isDocumentSource (specifier : String) : Bool :=
  contains specifier "generated" || contains specifier "graphql"

/-- The names that an import clause binds, namespaces apart. -/
def boundNames (clause : SyntaxTree) : List String :=
  clause.named.flatMap fun c =>
    match c.kind with
    | .identifier => [c.text]
    | .namedImports =>
      (c.named.filter (·.kind = .importSpecifier)).filterMap fun s =>
        ((s.child? .renamed).or (s.child? .name)).map SyntaxTree.text
    | _ => []

/-- The operation that an imported name speaks of. -/
def importedOperation? (fromDocuments : Bool) (name : String) : Option String :=
  if endsWith name "Query" || endsWith name "Mutation" then
    some (dropEnding ["Query", "Mutation"] name)
  else if endsWith name "Document" || fromDocuments then some (dropEnding ["Document"] name)
  else none

/-- Adds what an import statement binds. -/
def addImport (s : Scope) (t : SyntaxTree) : Scope :=
  match t.named? .importClause with
  | none => s
  | some clause =>
    let specifier := ((t.child? .source).bind SyntaxTree.stringValue?).getD ""
    let bound := (boundNames clause).filterMap fun name =>
      (importedOperation? (isDocumentSource specifier) name).map fun op => (name, op)
    { s with imports := s.imports.insertAll bound }

/-! ### Variables and properties -/

/-- Adds what a variable stands for. -/
def addVariable (s : Scope) (t : SyntaxTree) : Scope :=
  match t.child? .name, (t.child? .value).map SyntaxTree.unwrap with
  | some name, some value =>
    if name.kind ≠ .identifier then s
    else if value.kind = .identifier then
      if isDocumentName value.text then
        { s with bindings := s.bindings.insert name.text value.text }
      else s
    else
      match embeddedName? value with
      | some op => { s with bindings := s.bindings.insert name.text op }
      | none => s
  | _, _ => s

/-- Adds the operation that `owner.property` stands for. -/
def addProperty (s : Scope) (owner property : SyntaxTree) (value? : Option SyntaxTree) : Scope :=
  match value?.bind embeddedName? with
  | some op => { s with statics := s.statics.insert (owner.text ++ "." ++ property.text) op }
  | none => s

/-- Adds what an assignment to a property of a named object stands for. -/
def addAssignment (s : Scope) (t : SyntaxTree) : Scope :=
  match t.child? .left with
  | none => s
  | some target =>
    if target.kind ≠ .memberExpression then s
    else
      match target.child? .object, target.child? .property with
      | some owner, some property =>
        if owner.kind = .identifier then s.addProperty owner property (t.child? .right) else s
      | _, _ => s

/-- Adds what a static field of a class stands for. -/
def addField (name : SyntaxTree) (s : Scope) (field : SyntaxTree) : Scope :=
  if field.kind = .fieldDefinition && field.hasToken ["static"] then
    match field.child? .name with
    | some property => s.addProperty name property (field.child? .value)
    | none => s
  else s

/-- Adds what the static fields of a class stand for. -/
def addClass (s : Scope) (t : SyntaxTree) : Scope :=
  match t.child? .name, t.child? .body with
  | some name, some body => body.named.foldl (addField name) s
  | _, _ => s

/-- Adds what a tree by itself tells about names. -/
def add (s : Scope) (t : SyntaxTree) : Scope :=
  match t.kind with
  | .importStatement => s.addImport t
  | .variableDeclarator => s.addVariable t
  | .assignmentExpression => s.addAssignment t
  | .classDeclaration | .classExpression => s.addClass t
  | _ => s

/-- The names of a source, given the documents that are generated elsewhere. -/
def ofTree (root : SyntaxTree) (generated : Table String) : Scope :=
  (SyntaxTree.visit (·.kind ≠ .importStatement) [root]).foldl add { generated }

/-! ### Resolving names -/

/-- An operation under a name, unless it is empty. -/
def lookup? (t : Table String) (name : String) : Option String :=
  (t.get? name).bind fun op => if op = "" then none else some op

/-- The operation that the name of a document speaks of. -/
def documentOperation? (s : Scope) (name : String) : Option String :=
  (lookup? s.generated name).or (lookup? s.imports name)

/-- The operation that a name speaks of, following variables that stand for others. Names in `seen`
are not followed again. -/
def resolveFrom (s : Scope) : (fuel : Nat) → (seen : List String) → (name : String) → Option String
  | 0, _, _ => none
  | fuel + 1, seen, name =>
    if seen.contains name then none
    else
      match lookup? s.bindings name with
      | some target =>
        if s.bindings.contains target then resolveFrom s fuel (name :: seen) target
        else if isDocumentName target then (s.documentOperation? target).or (cleanName? target)
        else some target
      | none =>
        (s.documentOperation? name).or (if isPlaceholder name then none else cleanName? name)

/-- The operation that a name speaks of when the names in `seen` have been followed already. Each
further step uses up a variable. -/
def resolveUnseen (s : Scope) (seen : List String) (name : String) : Option String :=
  s.resolveFrom (s.bindings.size + 2) seen name

/-- The operation that a name speaks of. -/
def resolve (s : Scope) (name : String) : Option String := s.resolveUnseen [] name

end Scope

end PageReach.Operation
