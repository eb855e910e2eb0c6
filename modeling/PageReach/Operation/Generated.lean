import PageReach.Operation.Kind
import PageReach.Script.Literal
import PageReach.Text.Split

/-!
# Generated documents

Code generators write documents out as objects: a constant whose name ends in `Document` is exported
with the syntax tree of a document as its value. The first definition of the document tells which
operation it holds.
-/

namespace PageReach.Operation

open Script Text

/-- An exported document. -/
structure GeneratedDocument where
  /-- The name of the constant. -/
  constant : String
  /-- The operation that the document holds. -/
  operation : String
  kind : OperationKind
  line : Nat
deriving DecidableEq, Repr, Inhabited

/-- The operation that the syntax tree of a document holds first. -/
def firstOperation? (document : Value) : Except Fault (Option (String × OperationKind)) :=
  match (document.get? "definitions").bind Value.items? with
  | some (definition :: _) =>
    if (definition.get? "kind").bind Value.text? ≠ some "OperationDefinition" then .ok none
    else
      match ((definition.get? "name").bind (·.get? "value")).bind Value.text? with
      | none | some "" => .ok none
      | some name => do
        return some (name, ← OperationKind.ofValue ((definition.get? "operation").getD .null))
  | _ => .ok none

/-- The document that a constant holds. -/
def generatedDocument? (declarator : SyntaxTree) : Except Fault (Option GeneratedDocument) :=
  match declarator.child? .name, (declarator.child? .value).map SyntaxTree.unwrap with
  | some name, some value =>
    if name.kind ≠ .identifier || !endsWith name.text "Document" || value.kind ≠ .object then
      .ok none
    else
      let document := value.literal
      if (document.get? "kind").bind Value.text? ≠ some "Document" then .ok none
      else do
        return (← firstOperation? document).map fun (operation, kind) =>
          ⟨name.text, operation, kind, name.start.line⟩
  | _, _ => .ok none

/-- The constants that a top-level statement exports. -/
def exportedConstants (t : SyntaxTree) : List SyntaxTree :=
  if t.kind ≠ .exportStatement then []
  else
    match t.child? .declaration with
    | none => []
    | some d =>
      if d.kind = .lexicalDeclaration || d.kind = .variableDeclaration then
        d.named.filter (·.kind = .variableDeclarator)
      else []

/-- The documents that a source exports, in document order. -/
def generatedDocuments (root : SyntaxTree) : Except Fault (List GeneratedDocument) := do
  let found ← (root.named.flatMap exportedConstants).mapM generatedDocument?
  return found.filterMap id

end PageReach.Operation
