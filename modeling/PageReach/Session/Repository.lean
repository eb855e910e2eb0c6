import PageReach.Session.Basic

/-!
# Repositories

A repository is a directory on a disk. Its files are read and analysed in a session.

The operations are written once, for any monad `m` with an `Access m`: ways to ask the tables of a
session, to read files and to parse texts. Those of a `Repository` are the same operations with
`Access.plain`, which works in the session itself.
-/

namespace PageReach

open Script

/-- A directory on a disk. -/
structure Repository where
  disk : Disk
  root : String
  /-- The size from which on a file is not read. -/
  sizeLimit : Option Int := none

namespace Repository

/-- Whether a file is too large to be read; `none` if there is nothing to measure. -/
def isOversized? (r : Repository) (path : String) : Option Bool :=
  match r.sizeLimit with
  | none => some false
  | some limit => (r.disk.entry? path).map fun e => limit ≤ (e.size : Int)

/-- Reads a file from the disk. A file that is too large counts as unreadable, but not as an
error. -/
def readDisk (r : Repository) (file : String) : Run (Option String) := do
  let path := Path.join r.root file
  match r.isOversized? path, r.disk.readText path with
  | _, .error .unusablePath => throw .unusablePath
  | some true, _ => return none
  | some false, .ok text => return some text
  | _, _ =>
    modify Session.countReadError
    return none

end Repository

/-! ### Access to a session -/

/-- The ways to what a session works with, in some monad. -/
structure Access (m : Type → Type) where
  /-- Asks one of the tables of which hits and misses are counted; that of trees is none of them. -/
  consult : {α : Type} → (Session → Option α) → m (Option α)
  /-- Reads a file from the disk. -/
  read : Repository → String → m (Option String)
  /-- Parses the text of a file. -/
  parse : (file source : String) → m (Option SyntaxTree)
  /-- Works with what the session remembers. -/
  inside : {α : Type} → Run α → m α

/-- Tables, disk and parser as they are. -/
def Access.plain : Access Run where
  consult look := return look (← get)
  read := Repository.readDisk
  parse file source := return parseFile? file source
  inside := id

section

variable {m : Type → Type} [Monad m] {α : Type}

/-- Asks a table, and counts a hit or a miss. -/
def Access.lookUp (a : Access m) (look : Session → Option α) : m (Option α) := do
  match ← a.consult look with
  | some v =>
    a.inside (modify Session.countHit)
    return some v
  | none =>
    a.inside (modify Session.countMiss)
    return none

/-- Answers from memory, or else works the answer out and remembers it. -/
def Access.recall (a : Access m) (shelf : Shelf α) (file : String) (work : m α) : m α := do
  match ← a.lookUp fun s => (shelf.table s).get? file with
  | some v => return v
  | none =>
    let v ← work
    a.inside (modify fun s => shelf.withTable s ((shelf.table s).insert file v))
    return v

namespace Access

/-- The text of a file. -/
def text (a : Access m) (r : Repository) (file : String) : m (Option String) :=
  a.recall Session.textShelf file (a.read r file)

/-- The tree of a file, or why there is none. -/
def tree (a : Access m) (r : Repository) (file : String) : m (Except ParseFailure SyntaxTree) := do
  match ← a.inside (do return (← get).trees.get? file) with
  | some t => return t
  | none =>
    let t : Except ParseFailure SyntaxTree ← match ← a.text r file with
      | none => pure (.error .unreadable)
      | some source => do
        let parsed ← a.parse file source
        pure <| match parsed with
          | some t => .ok t
          | none => .error .syntaxError
    a.inside (modify (·.putTree file t))
    return t

/-- The edges of a file; one without a tree has none. -/
def edges (a : Access m) (r : Repository) (file : String) : m (List Edge) :=
  a.recall Session.edgeShelf file do
    match ← a.tree r file with
    | .ok t => return Edge.ofTree t
    | .error _ => return []

/-- What a file exports; nothing is known of one without a tree. -/
def surface (a : Access m) (r : Repository) (file : String) : m Surface :=
  a.recall Session.surfaceShelf file do
    match ← a.tree r file with
    | .ok t => return Surface.ofTree t
    | .error _ => return Surface.unknown

/-- The operations to which a file refers, given the documents that are generated elsewhere. A file
without a sign of operations is not parsed. -/
def facts (a : Access m) (r : Repository) (generated : Table String) (file : String) :
    m (List Fact) :=
  a.recall Session.factShelf file do
    match ← a.text r file with
    | none => return []
    | some source =>
      if Operation.hasSign source then
        match ← a.tree r file with
        | .ok t => return Operation.factsOfTree t file generated
        | .error _ => return []
      else return []

/-- The file that a specifier names. The empty specifier names none, and that is not remembered. -/
def resolve (a : Access m) (resolver : Resolver) (file specifier : String) : m (Option String) :=
  if specifier = "" then return none
  else do
    match ← a.lookUp (·.resolution? file specifier) with
    | some target => return target
    | none =>
      let target ← a.inside (Session.withConfigs (resolver.resolveRemembering file specifier))
      a.inside (modify (·.putResolution file specifier target))
      return target

end Access

end

/-! ### The operations of a repository -/

namespace Repository

@[inherit_doc Access.text]
def text (r : Repository) (file : String) : Run (Option String) := Access.plain.text r file

@[inherit_doc Access.tree]
def tree (r : Repository) (file : String) : Run (Except ParseFailure SyntaxTree) :=
  Access.plain.tree r file

@[inherit_doc Access.edges]
def edges (r : Repository) (file : String) : Run (List Edge) := Access.plain.edges r file

@[inherit_doc Access.surface]
def surface (r : Repository) (file : String) : Run Surface := Access.plain.surface r file

@[inherit_doc Access.facts]
def facts (r : Repository) (generated : Table String) (file : String) : Run (List Fact) :=
  Access.plain.facts r generated file

@[inherit_doc Access.resolve]
def resolve (resolver : Resolver) (file specifier : String) : Run (Option String) :=
  Access.plain.resolve resolver file specifier

/-- The module graph of a repository. -/
def graph (r : Repository) (resolver : Resolver) : Graph Run :=
  ⟨r.edges, r.surface, resolve resolver⟩

end Repository

end PageReach
