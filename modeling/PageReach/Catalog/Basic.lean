import PageReach.Catalog.Definition
import PageReach.Catalog.Mention

/-!
# The catalog of operations

The catalog lists each operation of a repository with the file that defines it and the files that
use it. The first definition of a name counts. A file uses an operation if it mentions the name of
its document, or if one of its calls refers to the operation.
-/

namespace PageReach.Catalog

/-- The first definition of each name. -/
def firstDefinitions (definitions : List OperationSource) : Table OperationSource :=
  definitions.foldl (fun t s => t.insertNew s.name s) .empty

/-- The names of documents, with one made up for each operation that has none of that name. -/
def withUsualNames (documents : Table String) (operations : List String) : Table String :=
  operations.foldl (fun t name => t.insertNew (name ++ "Document") name) documents

/-- Adds a file to those that use an operation, unless it is known or defines the operation. -/
def addUsage (file : String) (s : OperationSource) : OperationSource :=
  if s.definedIn = some file || s.usedIn.contains file then s
  else { s with usedIn := s.usedIn ++ [file] }

/-- Adds a file to those that use the operation `name`. -/
def use (file : String) (t : Table OperationSource) (name : String) : Table OperationSource :=
  ⟨t.entries.map fun (n, s) => (n, if n = name then addUsage file s else s)⟩

/-- With this many names of documents or more, mentions are not looked for. -/
def maxNames : Nat := 2000

/-- The names of documents that are looked for: those of known operations that end as documents
do. -/
def soughtNames (operations : Table OperationSource) (documents : Table String) : List String :=
  let names := (documents.entries.filter fun (doc, name) =>
    operations.contains name && Text.endsWith doc "Document").map (·.1)
  if names.length < maxNames then names else []

/-- Adds the uses of operations in a file. -/
def addUses (r : Repository) (documents : Table String) (t : Table OperationSource)
    (file : String) : Run (Table OperationSource) := do
  match ← r.text file with
  | none => return t
  | some source =>
    if Operation.hasSign source then
      let mentioned := (mentions (soughtNames t documents) source).filterMap documents.get?
      let t := mentioned.foldl (use file) t
      let facts ← r.facts documents file
      return (facts.map Fact.name).foldl (use file) t
    else return t

end Catalog

/-- The operations of a repository. -/
structure Catalog where
  sources : List OperationSource
  /-- Names of documents and the operations they hold. -/
  documents : Table String
  coverage : Catalog.Coverage
deriving Repr, Inhabited

namespace Catalog

/-- The patterns of document files. -/
def documentPatterns : List String := ["**/*.graphql", "**/*.gql"]

/-- The document files of a repository: those that are given, or else all that there are. -/
def documentFiles (r : Repository) (given : Option (List String)) : List String :=
  given.getD (FileIndex.scan r.disk r.root { includes := documentPatterns }).files

/-- The catalog of a repository, given its document files and its scripts. -/
def build (r : Repository) (documentFiles scripts : List String) : Run Catalog := do
  let draft ← Draft.gather r documentFiles scripts
  let unique := firstDefinitions draft.definitions
  let documents := withUsualNames draft.documents unique.keys
  let used ← if unique.entries.isEmpty then pure unique
    else scripts.foldlM (addUses r documents) unique
  return ⟨used.values, documents, draft.coverage⟩

/-- The catalog of a repository whose scripts are indexed. -/
def ofRepository (r : Repository) (given : Option (List String)) (index : FileIndex) :
    Run Catalog :=
  build r (documentFiles r given) index.files

end Catalog

end PageReach
