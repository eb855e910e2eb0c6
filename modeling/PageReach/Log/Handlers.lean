import PageReach.Files.Disk
import PageReach.Log.Record

/-!
# Log files

Each log directory has one log file, to which a handler writes. Asking again for the same directory
gives the same handler.
-/

namespace PageReach.Log

open Text

/-- The handlers of log files: directories in the order in which they came. -/
structure Handlers where
  directories : List String := []
deriving DecidableEq, Repr, Inhabited

/-- The absolute form of a directory's path. -/
def directoryKey (path : String) : String :=
  "/" ++ Path.ofSegments (Path.collapse true (split '/' path))

namespace Handlers

/-- The handler for a directory, which is made if it is missing. A new handler needs a known
level. -/
def attach (h : Handlers) (d : Disk) (directory level : String) :
    Except Fault Nat × Handlers × Disk :=
  let key := directoryKey directory
  match h.directories.idxOf? key with
  | some i => (.ok i, h, d)
  | none =>
    let d := d.makeDirectory key
    match Level.ofAnyCase level with
    | .error f => (.error f, h, d)
    | .ok _ => (.ok h.directories.length, ⟨h.directories ++ [key]⟩, d)

end Handlers

end PageReach.Log
