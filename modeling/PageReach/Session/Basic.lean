import PageReach.Dependency.Graph
import PageReach.Fault
import PageReach.Module.Resolver
import PageReach.Operation.Reference

/-!
# Sessions

A session remembers, for the length of a run, what it has found out about files: their texts, trees,
edges, surfaces and facts, where specifiers lead, and project configurations. What is remembered is
never looked up again, and failures are remembered as well, so that all answers about a file speak
of the file as it was when it was first looked at.

A session also counts how often it could answer from memory.
-/

namespace PageReach

open Script

/-- Why a file has no tree. -/
inductive ParseFailure where
  | unreadable
  | syntaxError
deriving DecidableEq, Repr, Inhabited

namespace ParseFailure

/-- The cause in words. -/
def reason : ParseFailure → String
  | unreadable => "unreadable"
  | syntaxError => "syntax error"

/-- A sentence that tells what is wrong with a file. -/
def message (f : ParseFailure) (file : String) : String :=
  "Failed to parse " ++ file ++ ": " ++ f.reason

end ParseFailure

/-- What a run remembers and counts. -/
structure Session where
  /-- Texts of files; `none` for files that cannot be read. -/
  texts : Table (Option String) := .empty
  trees : Table (Except ParseFailure SyntaxTree) := .empty
  edges : Table (List Edge) := .empty
  surfaces : Table Surface := .empty
  facts : Table (List Fact) := .empty
  /-- Files that specifiers name, by importing file and specifier. -/
  resolutions : List ((String × String) × Option String) := []
  /-- Configurations that have been asked for. -/
  configs : ConfigMemory := {}
  /-- Answers from memory. -/
  hits : Nat := 0
  /-- Answers that had to be worked out. -/
  misses : Nat := 0
  readErrors : Nat := 0
  parseFailures : Nat := 0

/-- Computations in a session. A fault leaves the session as it is at that point. -/
abbrev Run := ExceptT Fault (StateM Session)

/-- Where a session keeps its answers of one kind. -/
structure Shelf (α : Type) where
  table : Session → Table α
  withTable : Session → Table α → Session

namespace Session

/-- The shelf of texts. -/
def textShelf : Shelf (Option String) := ⟨texts, fun s t => { s with texts := t }⟩

/-- The shelf of edges. -/
def edgeShelf : Shelf (List Edge) := ⟨edges, fun s t => { s with edges := t }⟩

/-- The shelf of surfaces. -/
def surfaceShelf : Shelf Surface := ⟨surfaces, fun s t => { s with surfaces := t }⟩

/-- The shelf of facts. -/
def factShelf : Shelf (List Fact) := ⟨facts, fun s t => { s with facts := t }⟩

/-- Counts an answer from memory. -/
def countHit (s : Session) : Session := { s with hits := s.hits + 1 }

/-- Counts an answer that had to be worked out. -/
def countMiss (s : Session) : Session := { s with misses := s.misses + 1 }

/-- Counts a file that could not be read. -/
def countReadError (s : Session) : Session := { s with readErrors := s.readErrors + 1 }

/-- Remembers the tree of a file, or why there is none. -/
def putTree (s : Session) (file : String) (tree : Except ParseFailure SyntaxTree) : Session :=
  { s with
    trees := s.trees.insert file tree
    parseFailures := s.parseFailures + (match tree with
      | .ok _ => 0
      | .error _ => 1) }

/-- Where a specifier leads, if that is remembered. -/
def resolution? (s : Session) (file specifier : String) : Option (Option String) :=
  s.resolutions.lookup (file, specifier)

/-- Remembers where a specifier leads. -/
def putResolution (s : Session) (file specifier : String) (target : Option String) : Session :=
  { s with resolutions := Table.insertInto (file, specifier) target s.resolutions }

/-- Works with the configurations that the session remembers. -/
def withConfigs {α : Type} (work : ConfigMemory.Recalling α) : Run α := ExceptT.mk do
  let s ← get
  let (outcome, configs) := work.run.run s.configs
  set { s with configs }
  return outcome

end Session

end PageReach
