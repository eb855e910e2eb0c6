import PageReach.Operation.Kind

/-!
# Facts about operations

A fact says that a file defines or uses an operation. A record of the catalog gathers the facts
about one operation.
-/

namespace PageReach

/-- A file defines or uses an operation. -/
structure Fact where
  name : String
  kind : OperationKind
  file : String
deriving DecidableEq, Repr, Inhabited

/-- Where an operation is defined and used. -/
structure OperationSource where
  name : String
  kind : OperationKind
  definedIn : Option String := none
  usedIn : List String := []
deriving DecidableEq, Repr, Inhabited

namespace OperationSource

/-- The files of an operation, each once, the one that defines it first. -/
def files (s : OperationSource) : List String :=
  let home := match s.definedIn with
    | none | some "" => []
    | some file => [file]
  s.usedIn.foldl (fun files f => if files.contains f then files else files ++ [f]) home

/-- One fact for each file of an operation. -/
def facts (s : OperationSource) : List Fact := s.files.map fun f => ⟨s.name, s.kind, f⟩

end OperationSource

end PageReach
