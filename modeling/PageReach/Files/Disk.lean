import PageReach.Files.Path
import PageReach.Table
import PageReach.Text.Lines

/-!
# A disk

A disk holds files and directories under absolute paths. There are no links, so a path can be
followed segment by segment; a segment below something that is not a directory leads nowhere. Nobody
is kept from looking at anything.

To ask whether something stands at a path may fail, since `nameLimit` and `pathLimit` bound the bytes
that names and paths can have: `look` stops then. To `readText` such a path is one without a file.
-/

namespace PageReach

open Text

/-- What stands at a path. -/
inductive Entry where
  | file (bytes : ByteArray)
  | directory

/-- The number of bytes that an entry takes; a directory takes one block. -/
def Entry.size : Entry → Nat
  | .file bytes => bytes.size
  | .directory => 4096

/-- Files and directories by the segments of their absolute paths, joined by slashes. -/
structure Disk where
  entries : Table Entry

/-- Why a text cannot be read. -/
inductive ReadError where
  /-- There is no file at the path. -/
  | noFile
  /-- The file is not UTF-8. -/
  | notText
  /-- The path holds a zero character. -/
  | unusablePath
deriving DecidableEq, Repr

namespace Disk

/-- The disk with nothing but its root. -/
def empty : Disk := ⟨.ofList [("", .directory)]⟩

/-- The segments of a path that lead somewhere else. -/
def steps (path : String) : List String := (split '/' path).filter fun s => s ≠ "" && s ≠ "."

/-- The entry at a path without `..`. -/
def at? (d : Disk) (place : List String) : Option Entry := d.entries.get? (Path.ofSegments place)

/-- One step from the directory `place`; there is none from anything else. -/
def step? (d : Disk) (place : List String) (segment : String) : Option (List String) :=
  match d.at? place with
  | some .directory => some (if segment = ".." then place.dropLast else place ++ [segment])
  | _ => none

/-- Where an absolute path leads. -/
def follow? (d : Disk) (path : String) : Option (List String) :=
  (steps path).foldlM d.step? []

/-- The entry to which an absolute path leads. -/
def entry? (d : Disk) (path : String) : Option Entry := (d.follow? path).bind d.at?

/-- Whether a path leads to a file. -/
def isFile (d : Disk) (path : String) : Bool :=
  match d.entry? path with
  | some (.file _) => true
  | _ => false

/-- Whether a path leads to a directory. -/
def isDirectory (d : Disk) (path : String) : Bool :=
  match d.entry? path with
  | some .directory => true
  | _ => false

/-! ### Looking -/

/-- The most bytes that a name can have. -/
def nameLimit : Nat := 255

/-- The number of bytes from which on a path is too long. -/
def pathLimit : Nat := 4096

/-- The number of bytes that a text takes in a path. -/
def byteSize (s : String) : Nat := s.toList.foldl (fun n c => n + byteCount c) 0

/-- The path as it is handed to the disk: without empty segments and `.`, and with one slash at the
front unless there are exactly two. -/
def spelled (path : String) : String :=
  (if (path.toList.takeWhile (· = '/')).length = 2 then "//" else "/") ++
    Path.ofSegments (steps path)

/-- Whether a directory is reached in which a name that is too long is asked for. -/
def meetsLongName (d : Disk) : (place : List String) → (segments : List String) → Bool
  | _, [] => false
  | place, segment :: segments =>
    match d.step? place segment with
    | none => false
    | some next => nameLimit < byteSize segment || d.meetsLongName next segments

/-- Whether a path is too long, as a whole or in a name that is met on the way. -/
def isTooLong (d : Disk) (path : String) : Bool :=
  pathLimit ≤ byteSize (spelled path) || d.meetsLongName [] (steps path)

/-- Looks at what a path leads to. A path that cannot be written leads nowhere. -/
def look (d : Disk) (path : String) : Except Fault (Option Entry) :=
  if !Path.isWritable path then .ok none
  else if d.isTooLong path then .error .pathTooLong
  else .ok (d.entry? path)

/-- Whether a path leads anywhere. -/
def leads (d : Disk) (path : String) : Except Fault Bool := (d.look path).map Option.isSome

/-- Whether a path leads to a file. -/
def leadsToFile (d : Disk) (path : String) : Except Fault Bool :=
  (d.look path).map fun
    | some (.file _) => true
    | _ => false

/-! ### Writing and reading -/

/-- Makes the directories on the way to `place`, and `place` itself. -/
def makeDirectories (d : Disk) (place : List String) : Disk :=
  let places := (List.range (place.length + 1)).map place.take
  ⟨places.foldl (fun t p => t.insertNew (Path.ofSegments p) .directory) d.entries⟩

/-- Puts a file at a path, with the directories on the way to it. -/
def write (d : Disk) (path : String) (bytes : ByteArray) : Disk :=
  let place := Path.collapse true (split '/' path)
  ⟨(d.makeDirectories place.dropLast).entries.insert (Path.ofSegments place) (.file bytes)⟩

/-- Makes a directory at a path. -/
def makeDirectory (d : Disk) (path : String) : Disk :=
  d.makeDirectories (Path.collapse true (split '/' path))

/-- The text of a file's bytes, with line feeds for all line ends. -/
def decode? (bytes : ByteArray) : Option String :=
  (String.fromUTF8? bytes).map fun s => String.ofList (unifyLineEnds s.toList)

/-- The text of the file to which a path leads. -/
def readText (d : Disk) (path : String) : Except ReadError String :=
  if path.toList.contains '\x00' then .error .unusablePath
  else
    match d.entry? path with
    | some (.file bytes) =>
      match decode? bytes with
      | some s => .ok s
      | none => .error .notText
    | _ => .error .noFile

/-- The files below a directory with their relative paths. -/
def filesBelow (d : Disk) (root : String) : List (String × ByteArray) :=
  let front := Path.ofSegments (Path.collapse true (split '/' root)) ++ "/"
  d.entries.entries.filterMap fun (place, e) =>
    match e, afterPrefix? place front with
    | .file bytes, some inner => some (inner, bytes)
    | _, _ => none

end Disk

end PageReach
