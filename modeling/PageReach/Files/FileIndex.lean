import PageReach.Files.Disk
import PageReach.Files.Glob

/-!
# The file index

The index holds the source files of a repository in relative form, sorted by code points. Modules,
pages and operations are always found in it, so that nothing outside of it is ever looked at.
-/

namespace PageReach

open Text

/-- The source files of a repository. -/
structure FileIndex where
  files : List String
deriving DecidableEq, Repr, Inhabited

namespace FileIndex

/-- The index of the paths that have a relative form. -/
def ofPaths (paths : List String) : FileIndex := ⟨sortedSet (paths.filterMap Path.relative?)⟩

/-- Whether a file is in the index. -/
def contains (u : FileIndex) (file : String) : Bool := u.files.contains file

/-! ### Looking up modules -/

/-- The extensions of source files, in the order in which they are tried. -/
def extensions : List String := [".ts", ".tsx", ".js", ".jsx", ".mts", ".cts", ".mjs", ".cjs"]

/-- What stands before the extension of a source file; a line feed at the very end is no part of
the extension. -/
def stem (file : String) : String :=
  let (body, tail) := if endsWith file "\n" then (dropBack file 1, "\n") else (file, "")
  match (".d.ts" :: extensions).findSome? (beforeSuffix? body) with
  | some front => front ++ tail
  | none => file

/-- The files that stand for a module without its extension. -/
def variants (base : String) : List String :=
  extensions.map (base ++ ·) ++ extensions.map (base ++ "/index" ++ ·)

/-- The files that stand for a module, the most likely first. -/
def candidates (file : String) : List String :=
  file :: (if stem file = file then [file] else [stem file, file]).flatMap variants

/-- The indexed file for a path that may lack its extension or name a directory. -/
def lookup (u : FileIndex) (path : String) : Option String :=
  (Path.relative? path).bind fun file => (candidates file).find? u.contains

/-! ### Source roots -/

/-- The beginnings of a path that end in `/src/`, where this is looked for from `start` on, and at most
`fuel` times. The search goes on one character behind the place where it was found. -/
def sourceRootsFrom (cs : List Char) : (fuel : Nat) → (start : Nat) → List String
  | 0, _ => []
  | fuel + 1, start =>
    match indexOf? "/src/".toList (cs.drop start) with
    | none => []
    | some i => String.ofList (cs.take (start + i + 5)) :: sourceRootsFrom cs fuel (start + i + 1)

/-- The beginnings of a path that end in a directory `src` below another one, shortest first. -/
def sourceRootsOf (file : String) : List String := sourceRootsFrom file.toList file.length 0

/-- Adds what is not there yet. -/
def addNew (known : List String) (s : String) : List String :=
  if known.contains s then known else known ++ [s]

/-- The directories `src` of the repository: the one at its root, and those that hold indexed
files. -/
def sourceRoots (u : FileIndex) : List String :=
  (u.files.flatMap sourceRootsOf).foldl addNew ["src/"]

/-! ### Locating pages -/

/-- The directories in which pages are usually kept. -/
def pageRoots : List String :=
  ["src/pages/", "pages/", "src/app/", "app/", "frontend/src/pages/", "frontend/src/app/",
    "app/javascript/pages/", "app/javascript/app/"]

/-- Whether `f` is shorter than `g`, or as long and before it. -/
def shorter (f g : String) : Bool :=
  f.length < g.length || (f.length = g.length && f < g)

/-- The shortest of some files, the first by code points among those of one length. -/
def shortest? : List String → Option String
  | [] => none
  | f :: fs => some (fs.foldl (fun best g => if shorter g best then g else best) f)

/-- The entry file of a page whose path may be given from the root of the repository or from the
directory that holds its pages. -/
def locate (u : FileIndex) (path : String) : Option String :=
  match Path.relative? path with
  | none => none
  | some file =>
    if u.contains file then some file
    else
      ((pageRoots.findSome? fun root => u.lookup (root ++ file)).or
        (["/pages/", "/app/", "/"].findSome? fun front =>
          shortest? (u.files.filter (endsWith · (front ++ file))))).or
        (u.lookup file)

/-! ### Scanning a disk -/

/-- Directories that hold no sources of the repository itself. -/
def skippedDirectories : List String :=
  [".git", ".hg", ".svn", "node_modules", "dist", "build", "out", ".next", ".nuxt", ".turbo",
    "coverage", ".coverage", ".pagegraph"]

/-- The patterns of source files. -/
def sourcePatterns : List String := ["**/*.ts", "**/*.tsx"]

/-- Which files of a disk to take. -/
structure Selection where
  includes : List String := sourcePatterns
  excludes : List String := []
  /-- The size from which on a file is left out. -/
  sizeLimit : Option Int := none
deriving Repr, Inhabited

/-- A selection without patterns takes the source files. -/
def Selection.patterns (s : Selection) : List String :=
  if s.includes.isEmpty then sourcePatterns else s.includes

/-- Whether a file of the given size is taken. -/
def Selection.takes (s : Selection) (file : String) (size : Nat) : Bool :=
  s.patterns.any (Glob.covered · file) && !s.excludes.any (Glob.covered · file) &&
    (match s.sizeLimit with
      | none => true
      | some limit => (size : Int) < limit)

/-- Whether a file lies in a skipped directory. -/
def isSkipped (file : String) : Bool :=
  ((split '/' file).dropLast).any skippedDirectories.contains

/-- The index of the selected files below a directory. -/
def scan (d : Disk) (root : String) (s : Selection) : FileIndex :=
  ofPaths ((d.filesBelow root).filterMap fun (file, bytes) =>
    if !isSkipped file && s.takes file bytes.size then some file else none)

end FileIndex

end PageReach
