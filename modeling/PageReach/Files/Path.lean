import PageReach.Fault
import PageReach.Text.Half
import PageReach.Text.Split

/-!
# Paths

Paths are texts with slashes between their segments. Files are addressed by their *relative form*:
segments below the root of the repository, none of them empty, `.` or `..`.
-/

namespace PageReach.Path

open Text

/-! ### Lexical operations -/

/-- Takes one more segment onto the stack `done` (last segment first). A segment `..` takes the last
one away; at the top it is dropped below an absolute root and kept otherwise. -/
def pushSegment (absolute : Bool) (done : List String) (segment : String) : List String :=
  if segment = "" || segment = "." then done
  else if segment = ".." then
    match done with
    | [] => if absolute then [] else [".."]
    | ".." :: _ => ".." :: done
    | _ :: rest => rest
  else segment :: done

/-- The segments that remain after `.`, `..` and empty segments are worked off. -/
def collapse (absolute : Bool) (segments : List String) : List String :=
  (segments.foldl (pushSegment absolute) []).reverse

/-- Segments with slashes between them. -/
def ofSegments (segments : List String) : String := String.intercalate "/" segments

/-- The shortest path with the same lexical meaning; `.` for no segments. Exactly two slashes at the
front are kept, any other number becomes one. -/
def normalize (path : String) : String :=
  let slashes := (path.toList.takeWhile (· = '/')).length
  let root := if slashes = 0 then "" else if slashes = 2 then "//" else "/"
  let whole := root ++ ofSegments (collapse (slashes ≠ 0) (split '/' path))
  if whole = "" then "." else whole

/-- `path` seen from the directory `base`; an absolute path stays as it is. -/
def join (base path : String) : String :=
  if startsWith path "/" then path
  else if base = "" || endsWith base "/" then base ++ path
  else base ++ "/" ++ path

/-- What stands before the last slash, without the slashes there unless it is nothing but
slashes. -/
def directory (path : String) : String :=
  let head := path.toList.reverse.dropWhile (· ≠ '/')
  let trimmed := head.dropWhile (· = '/')
  String.ofList (if trimmed.isEmpty then head else trimmed).reverse

/-- The absolute path without `.` and `..` that a path stands for, seen from the root. -/
def placed (path : String) : String := "/" ++ ofSegments (collapse true (split '/' path))

/-- Whether all characters of a path can stand in the names of files. -/
def isWritable (path : String) : Bool := path.toList.all fun c => c ≠ '\x00' && !isStray c

/-- Refuses a segment that cannot be written. The lack of bytes is noticed before a zero. -/
def checkSegment (segment : String) : Except Fault Unit :=
  if segment.toList.any isStray then .error .strayHalf
  else if segment.toList.contains '\x00' then .error .unusablePath
  else .ok ⟨⟩

/-- The path that `placed` gives, if it can be written. The segments are looked at in order, also those
that a later `..` takes away. -/
def absolute (path : String) : Except Fault String := do
  (split '/' path).forM checkSegment
  return placed path

/-- The last segment that is neither empty nor `.`. -/
def lastSegment (path : String) : String :=
  (((split '/' path).filter fun s => s ≠ "" && s ≠ ".").getLast?).getD ""

/-- The part of a segment from its last point on, if something stands on either side of it. -/
def extensionOf (segment : String) : String :=
  let back := segment.toList.reverse.takeWhile (· ≠ '.')
  let front := segment.length - back.length
  if 1 < front && !back.isEmpty then "." ++ String.ofList back.reverse else ""

/-- The extension of the file that a path names. -/
def extension (path : String) : String := extensionOf (lastSegment path)

/-! ### The relative form -/

/-- The path with backslashes read as slashes and the root, if it is one of the directories that the
path names, cut off. -/
def belowRoot (root? : Option String) (path : String) : String :=
  let path := replaceChar '\\' '/' path
  match root? with
  | none => path
  | some root =>
    let root := trimEnd (· = '/') (replaceChar '\\' '/' root)
    (afterPrefix? path (root ++ "/")).getD path

/-- The relative form of a path that may be given with its root; `none` if it leads out of the root
or names the root itself. -/
def relativeTo? (root? : Option String) (path : String) : Option String :=
  let inner := trimStart (· = '/') (belowRoot root? path)
  if inner = "" then none
  else
    let whole := normalize inner
    if whole = "." || whole = ".." || startsWith whole "../" then none else some whole

/-- The relative form of a path. -/
def relative? (path : String) : Option String := relativeTo? none path

end PageReach.Path
