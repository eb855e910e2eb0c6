import PageReach.Files.FileIndex
import PageReach.Module.Memory
import PageReach.Module.Pattern

/-!
# Resolving specifiers

A specifier is what a source names another module by. It resolves to an indexed file, or to nothing:
packages, assets and mistakes are not in the index.

There is a ladder of strategies, and the first one that finds a file wins: the configuration nearest
to the importing file, relative specifiers, the alias `@/` for source roots, path patterns, and the
base directory. Whether the nearest configuration is looked for each time or remembered is left open
by the ladder, which asks for it in a monad.
-/

namespace PageReach

open Text

/-- A specifier of one segment that is neither relative nor scoped nor absolute. -/
def isPackage (specifier : String) : Bool :=
  !(startsWith specifier "." || startsWith specifier "/" || startsWith specifier "@") &&
    !specifier.toList.contains '/'

/-- The file that a relative specifier names. -/
def resolveRelative (index : FileIndex) (file specifier : String) : Option String :=
  index.lookup (Path.join (Path.directory file) specifier)

/-! ### By the nearest configuration -/

namespace ProjectConfig

/-- The indexed file at an absolute path; a path outside of the root has none. -/
def lookupAbsolute (index : FileIndex) (root path : String) : Option String :=
  if !startsWith path "/" then none
  else
    let home := Path.collapse true (split '/' root)
    let place := Path.collapse true (split '/' path)
    if home.isPrefixOf place then
      let inner := Path.ofSegments (place.drop home.length)
      if startsWith inner ".." then none else index.lookup inner
    else none

/-- The first value that holds anything. -/
def firstHolding (values : List (Option Value)) : Option Value :=
  values.findSome? fun v => v.bind fun v => if v.holds then some v else none

/-- The file of the first target that has one. Targets and their directory have to be text once they
are reached. -/
def firstTarget (index : FileIndex) (root : String) (directory : Value) :
    List Value → Except Fault (Option String)
  | [] => .ok none
  | target :: targets =>
    match directory, target with
    | .text dir, .text t =>
      match lookupAbsolute index root (Path.join dir t) with
      | some file => .ok (some file)
      | none => firstTarget index root directory targets
    | .text _, _ => .error .targetNotText
    | _, _ => .error .baseNotText

/-- The patterns of the configuration whose targets are lists. -/
def patterns? (c : ProjectConfig) : Option (Table (List Value)) :=
  ((c.options.get? "paths").bind Value.fields?).map fun paths =>
    ⟨paths.entries.filterMap fun (pattern, v) => v.items?.map fun items => (pattern, items)⟩

/-- The base directory of the configuration, if it holds anything. -/
def base? (c : ProjectConfig) : Option Value := firstHolding [c.options.get? "_baseUrlAbs"]

/-- The directory to which the targets of patterns are relative. -/
def targetDirectory (c : ProjectConfig) : Value :=
  (firstHolding [c.base?, c.options.get? "_pathsDir"]).getD (.text c.directory)

/-- The file that a specifier names by the patterns and the base directory of a configuration. -/
def resolve (c : ProjectConfig) (index : FileIndex) (root specifier : String) :
    Except Fault (Option String) := do
  let byPattern ← match c.patterns? with
    | none => pure none
    | some patterns => do
      firstTarget index root c.targetDirectory (← expandValues specifier patterns)
  match byPattern, c.base? with
  | some file, _ => return some file
  | none, none => return none
  | none, some (.text base) => return lookupAbsolute index root (Path.join base specifier)
  | none, some _ => .error .baseNotText

end ProjectConfig

section

variable {m : Type → Type} [Monad m] [MonadLiftT (Except Fault) m]

/-- The file that a specifier names by the configuration nearest to the importing file, which
`nearest` tells. -/
def resolveByNearest (nearest : String → m (Option ProjectConfig)) (root : String)
    (index : FileIndex) (file specifier : String) : m (Option String) :=
  if specifier = "" || isPackage specifier then return none
  else if startsWith specifier "." then return resolveRelative index file specifier
  else do
    match ← nearest file with
    | none => return none
    | some config => liftM (config.resolve index root specifier)

end

/-! ### The ladder -/

/-- What specifiers are resolved with. -/
structure Resolver where
  index : FileIndex
  aliases : AliasConfig := {}
  /-- The disk and the root of the repository, if the nearest configuration is to be asked. -/
  project : Option (Disk × String) := none

namespace Resolver

/-- The resolver of a repository, with the aliases that its configuration sets. -/
def ofRepository (d : Disk) (root : String) (index : FileIndex) : Except Fault Resolver := do
  let aliases ← AliasConfig.ofRepository d root
  return ⟨index, aliases, some (d, ← Path.absolute root)⟩

/-- The base directory in its shortest form; the root is written as nothing. -/
def base? (r : Resolver) : Option String :=
  r.aliases.baseUrl.map fun url =>
    let whole := Path.normalize (replaceChar '\\' '/' url)
    if whole = "." then "" else whole

/-- The file below the base directory. -/
def belowBase (r : Resolver) (path : String) : Option String :=
  r.base?.bind fun base => r.index.lookup (Path.join base path)

/-- The file below one of the source roots. -/
def belowSourceRoot (r : Resolver) (path : String) : Option String :=
  r.index.sourceRoots.findSome? fun root => r.index.lookup (root ++ path)

/-- The file of the first target of the path patterns that has one. -/
def byPattern (r : Resolver) (specifier : String) : Option String :=
  (expandTargets specifier r.aliases.patterns).findSome? fun target =>
    r.index.lookup (match r.base? with
      | none | some "" => target
      | some base => Path.join base target)

/-- The file that a specifier names without asking the nearest configuration. -/
def resolveByAliases (r : Resolver) (file specifier : String) : Option String :=
  if startsWith specifier "." then resolveRelative r.index file specifier
  else
    match afterPrefix? specifier "@/" with
    | some path => (r.belowBase path).or (r.belowSourceRoot path)
    | none => (r.byPattern specifier).or (r.belowBase specifier)

/-- The file that a specifier names, where `nearest` tells the configuration that holds for a file of
a repository. -/
def resolveVia {m : Type → Type} [Monad m] [MonadLiftT (Except Fault) m] (r : Resolver)
    (nearest : Disk → String → String → m (Option ProjectConfig)) (file specifier : String) :
    m (Option String) :=
  if specifier = "" then return none
  else do
    let nearest ← match r.project with
      | none => pure none
      | some (d, root) => resolveByNearest (nearest d root) root r.index file specifier
    return nearest.or (r.resolveByAliases file specifier)

/-- The file that a specifier names. -/
def resolve (r : Resolver) (file specifier : String) : Except Fault (Option String) :=
  r.resolveVia ProjectConfig.nearest file specifier

/-- The file that a specifier names, by configurations that are remembered. -/
def resolveRemembering (r : Resolver) (file specifier : String) :
    ConfigMemory.Recalling (Option String) :=
  r.resolveVia ConfigMemory.nearest file specifier

end Resolver

end PageReach
