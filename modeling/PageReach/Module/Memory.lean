import PageReach.Module.Config

/-!
# Remembered configurations

To find the configuration of a file takes a search upward from its directory, and to read it may take
a chain of files. Both are remembered: the nearest configuration file by the directory from which it
is looked for, and what a configuration file says by its path. It is also remembered that there is no
configuration, or that it cannot be read. A fault is not remembered.
-/

namespace PageReach

/-- What has been found out about configurations. -/
structure ConfigMemory where
  /-- Paths of the nearest configuration files by directory. -/
  paths : Table (Option String) := .empty
  /-- Configurations by the paths of their files. -/
  configs : Table (Option ProjectConfig) := .empty

namespace ConfigMemory

/-- Computations that remember configurations. -/
abbrev Recalling := ExceptT Fault (StateM ConfigMemory)

/-- Answers from one of the tables, or else works the answer out and remembers it. -/
def remember {α : Type} (table : ConfigMemory → Table α)
    (withTable : ConfigMemory → Table α → ConfigMemory) (work : String → Except Fault α)
    (key : String) : Recalling α := do
  match (table (← get)).get? key with
  | some a => return a
  | none =>
    let a ← liftM (work key)
    modify fun m => withTable m ((table m).insert key a)
    return a

/-- The configuration file nearest to a directory. -/
def path? (d : Disk) (root : String) : String → Recalling (Option String) :=
  remember paths (fun m t => { m with paths := t })
    (ProjectConfig.nearestPathIn d root)

/-- The configuration at a path. -/
def config (d : Disk) : String → Recalling (Option ProjectConfig) :=
  remember configs (fun m t => { m with configs := t }) (ProjectConfig.load d)

/-- The configuration that holds for a file. -/
def nearest (d : Disk) (root file : String) : Recalling (Option ProjectConfig) := do
  match ← path? d root (Path.directory file) with
  | none => return none
  | some path => config d path

end ConfigMemory

end PageReach
