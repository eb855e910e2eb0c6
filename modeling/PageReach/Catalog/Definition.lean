import PageReach.Document.Grammar
import PageReach.Operation.Generated
import PageReach.Session.Repository

/-!
# Definitions of operations

Operations are defined in GraphQL documents, in documents embedded in scripts, and in scripts that a
code generator writes. The definitions are gathered in this order, together with the names under
which scripts know the documents.
-/

namespace PageReach.Catalog

open Script

/-- What has been looked at, and what could not be read. -/
structure Coverage where
  filesScanned : Nat := 0
  /-- Scripts without a tree. -/
  scriptFailures : Nat := 0
  /-- Texts that are no documents. -/
  documentFailures : Nat := 0
  generatedFiles : Nat := 0
  generatedDocuments : Nat := 0
deriving DecidableEq, Repr, Inhabited

/-- Definitions gathered so far. -/
structure Draft where
  definitions : List OperationSource := []
  /-- Names of documents and the operations they hold. -/
  documents : Table String := .empty
  coverage : Coverage := {}
deriving Repr, Inhabited

namespace Draft

/-- Adds definitions. -/
def define (d : Draft) (sources : List OperationSource) : Draft :=
  { d with definitions := d.definitions ++ sources }

/-- Changes the counts. -/
def count (d : Draft) (f : Coverage → Coverage) : Draft := { d with coverage := f d.coverage }

/-! ### Documents -/

/-- Adds the operations that a text defines, and, if a variable holds the text, its name unless that
is known already. -/
def addText (d : Draft) (file text : String) (holder? : Option String) : Draft :=
  match Document.operations? text with
  | none => d.count fun c => { c with documentFailures := c.documentFailures + 1 }
  | some operations =>
    let named := match holder? with
      | none | some "" => d.documents
      | some v =>
        operations.foldl (fun t (op : Document.NamedOperation) => t.insertNew v op.name) d.documents
    { d with documents := named }.define
      (operations.map fun (op : Document.NamedOperation) => ⟨op.name, op.kind, some file, []⟩)

/-- Adds the operations of a document file. -/
def addDocument (r : Repository) (d : Draft) (file : String) : Run Draft := do
  match ← r.text file with
  | none | some "" => return d
  | some text => return d.addText file text none

/-! ### Embedded documents -/

/-- The variable that a declarator names, if it names one. -/
def declared? (t : SyntaxTree) (outer : Option String) : Option String :=
  if t.kind = .variableDeclarator then
    match t.child? .name with
    | some n => if n.kind = .identifier then some n.text else outer
    | none => outer
  else outer

mutual

/-- The embedded documents in a tree, each with the variable whose value it is part of. -/
def embeddedIn (outer : Option String) : SyntaxTree → List (SyntaxTree × Option String)
  | .leaf _ _ _ _ => []
  | .node k r p ts =>
    let t := SyntaxTree.node k r p ts
    match if k = .callExpression then Operation.embedded? t else none with
    | some literal => [(literal, outer)]
    | none => embeddedInAll (declared? t outer) ts

/-- The embedded documents in a row of trees. -/
def embeddedInAll (outer : Option String) : List SyntaxTree → List (SyntaxTree × Option String)
  | [] => []
  | t :: ts => embeddedIn outer t ++ embeddedInAll outer ts

end

/-- The text of an embedded document. -/
def embeddedText (literal : SyntaxTree) : String :=
  if literal.kind = .string then literal.stringValue?.getD "" else Operation.bodyText literal

/-- Adds the operations of the documents embedded in a tree. -/
def addEmbedded (file : String) (d : Draft) : SyntaxTree × Option String → Draft
  | (literal, holder?) =>
    let text := embeddedText literal
    if text = "" then d else d.addText file text holder?

/-- Adds the operations of the documents embedded in a script. -/
def addScript (r : Repository) (d : Draft) (file : String) : Run Draft := do
  let d := d.count fun c => { c with filesScanned := c.filesScanned + 1 }
  match ← r.text file with
  | none => return d
  | some source =>
    if Operation.tags.any (Text.contains source) then
      match ← r.tree file with
      | .error _ => return d.count fun c => { c with scriptFailures := c.scriptFailures + 1 }
      | .ok root => return (embeddedIn none root).foldl (addEmbedded file) d
    else return d

/-! ### Generated documents -/

/-- The patterns of files that code generators write. -/
def generatedPatterns : List String :=
  ["**/__generated__/graphql.ts", "**/__generated__/gql.ts", "**/generated/graphql.ts",
    "**/generated/gql.ts", "**/*.generated.ts", "**/*.generated.tsx", "**/graphql/generated.ts",
    "**/gql/generated.ts"]

/-- Adds generated documents. Their names take the place of earlier ones. -/
def addDocuments (d : Draft) (file : String) (documents : List Operation.GeneratedDocument) :
    Draft :=
  let named := d.documents.insertAll (documents.map fun g => (g.constant, g.operation))
  let counted := { d with documents := named }.count fun c =>
    { c with generatedDocuments := c.generatedDocuments + documents.length }
  counted.define (documents.map fun g => ⟨g.operation, g.kind, some file, []⟩)

/-- Adds the documents of a file if a code generator writes it. -/
def addGenerated (r : Repository) (d : Draft) (file : String) : Run Draft := do
  if !generatedPatterns.any (Glob.covered · file) then return d
  else
    match ← r.text file with
    | none => return d
    | some source =>
      if Text.contains source "Document" && Text.contains source "definitions" then
        let d := d.count fun c => { c with generatedFiles := c.generatedFiles + 1 }
        match ← r.tree file with
        | .error _ => return d.count fun c => { c with scriptFailures := c.scriptFailures + 1 }
        | .ok root =>
          let documents ← ExceptT.mk (pure (Operation.generatedDocuments root))
          return d.addDocuments file documents
      else return d

/-- The definitions of a repository, given its document files and its scripts. -/
def gather (r : Repository) (documents scripts : List String) : Run Draft := do
  let d ← documents.foldlM (addDocument r) {}
  let d ← scripts.foldlM (addScript r) d
  scripts.foldlM (addGenerated r) d

end Draft

end PageReach.Catalog
