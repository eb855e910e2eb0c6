import PageReach.Data.Json5
import PageReach.Fault
import PageReach.Files.Disk

/-!
# Project configurations

A project configuration gives compiler options, among them a base directory and path patterns. It
may extend another one: then it takes over the options that it does not set itself. A base directory
and the targets of patterns are relative to the configuration that sets them, so the directories
meant are kept beside the options.

A configuration that cannot be read counts as none.
-/

namespace PageReach

open Text

/-- The names of configuration files, the preferred one first. -/
def configNames : List String := ["tsconfig.json", "jsconfig.json"]

/-- The fields of a configuration file; `none` if it cannot be read or holds no object. -/
def readConfig? (d : Disk) (path : String) : Option (Table Value) :=
  match d.readText path with
  | .error _ => none
  | .ok source => (Json5.parse? source).bind Value.fields?

/-! ### Aliases at the root -/

/-- The aliases that the configuration at the root of a repository sets. -/
structure AliasConfig where
  baseUrl : Option String := none
  patterns : Table (List String) := .empty
  /-- The name of the file that sets them. -/
  file : Option String := none
deriving Repr, Inhabited

namespace AliasConfig

/-- Whether there is no alias. -/
def isEmpty (c : AliasConfig) : Bool := c.baseUrl.isNone && c.patterns.entries.isEmpty

/-- The aliases among compiler options. Targets that are not text are left out. -/
def ofOptions (file : String) (options : Table Value) : AliasConfig where
  baseUrl := (options.get? "baseUrl").bind Value.text?
  patterns :=
    match (options.get? "paths").bind Value.fields? with
    | none => .empty
    | some paths => ⟨paths.entries.filterMap fun (pattern, v) =>
        v.items?.map fun items => (pattern, items.filterMap Value.text?)⟩
  file := some file

/-- The aliases of the repository at `root`: those of the first configuration that can be read. -/
def ofRepository (d : Disk) (root : String) : Except Fault AliasConfig := do
  let found ← configNames.findSomeM? fun name => do
    if ← d.leadsToFile (Path.join root name) then
      return (readConfig? d (Path.join root name)).map fun fields =>
        ofOptions name (((fields.get? "compilerOptions").bind Value.fields?).getD .empty)
    else return none
  return found.getD {}

end AliasConfig

/-! ### Configurations with what they extend -/

/-- Compiler options merged along a chain of configurations. -/
structure ProjectConfig where
  /-- Options, together with the directories meant by them under `_baseUrlAbs` and `_pathsDir`. -/
  options : Table Value
  /-- The directory of the configuration at the beginning of the chain. -/
  directory : String
deriving Repr, Inhabited

namespace ProjectConfig

/-- The configuration that one at `path` extends. Only relative paths are followed, and the ending
`.json` may be left out. -/
def extended? (d : Disk) (path extends' : String) : Except Fault (Option String) :=
  if !startsWith extends' "." then .ok none
  else do
    let target ← Path.absolute (Path.join (Path.directory path) extends')
    if Path.extension target = ".json" then [target].findM? d.leads
    else if target = "/" then .error .unusablePath
    else [target ++ ".json", target].findM? d.leads

/-- The options that a configuration at `path` sets, with the directories meant by them. -/
def ownOptions (path : String) (fields : Table Value) : Except Fault (Table Value) :=
  match (fields.get? "compilerOptions").bind Value.fields? with
  | none => .ok .empty
  | some options => do
    let base ← match (options.get? "baseUrl").bind Value.text? with
      | none => pure []
      | some url => do
        let base ← Path.absolute (Path.join (Path.directory path) url)
        pure [("_baseUrlAbs", Value.text base)]
    let paths := match (options.get? "paths").bind Value.fields? with
      | none => []
      | some _ => [("_pathsDir", Value.text (Path.directory path))]
    return (Table.ofList (base ++ paths)).update options

/-- Reads the configuration at `path`, following at most `fuel` of those that it extends and none
twice. -/
def loadFrom (d : Disk) : (fuel : Nat) → (seen : List String) → (path : String) →
    Except Fault (Option ProjectConfig)
  | 0, _, _ => .ok none
  | fuel + 1, seen, path =>
    if seen.contains path then .ok none
    else
      match readConfig? d path with
      | none => .ok none
      | some fields => do
        let parent ← match (fields.get? "extends").bind Value.text? with
          | none => pure none
          | some target => do
            match ← extended? d path target with
            | none => pure none
            | some parentPath => loadFrom d fuel (path :: seen) parentPath
        let inherited := (parent.map ProjectConfig.options).getD .empty
        let own ← ownOptions path fields
        return some ⟨inherited.update own, Path.directory path⟩

/-- Reads the configuration at `path` with all that it extends. A chain without repetition is no
longer than there are entries on the disk. -/
def load (d : Disk) (path : String) : Except Fault (Option ProjectConfig) := do
  loadFrom d (d.entries.size + 2) [] (← Path.absolute path)

/-! ### The nearest configuration -/

/-- The configuration file in a directory of the repository at `root`. -/
def pathIn (d : Disk) (root directory : String) : Except Fault (Option String) :=
  (configNames.map (Path.join (Path.join root directory))).findM? d.leadsToFile

/-- Looks for a configuration file in a directory, then in those above it up to the root, which is
written as nothing. This ends with an error after `fuel` directories. -/
def searchUpward (d : Disk) (root : String) : (fuel : Nat) → (directory : String) →
    Except Fault (Option String)
  | 0, _ => .error .endlessSearch
  | fuel + 1, directory => do
    match ← pathIn d root directory with
    | some path => return some path
    | none =>
      if directory = "" then return none
      else searchUpward d root fuel (Path.directory directory)

/-- The configuration file nearest to a directory: in it or in one above, up to the root. From an
absolute path the root is never reached, and where there is no configuration the search goes on in the
topmost directory for ever. -/
def nearestPathIn (d : Disk) (root directory : String) : Except Fault (Option String) :=
  searchUpward d root (directory.length + 1) directory

/-- The configuration file nearest to `file`: in its own directory or one above, up to the root. -/
def nearestPath (d : Disk) (root file : String) : Except Fault (Option String) :=
  nearestPathIn d root (Path.directory file)

/-- The configuration that holds for a file. -/
def nearest (d : Disk) (root file : String) : Except Fault (Option ProjectConfig) := do
  match ← nearestPath d root file with
  | none => return none
  | some path => load d path

end ProjectConfig

end PageReach
