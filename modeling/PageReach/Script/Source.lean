import PageReach.Files.Path
import PageReach.Script.Parse

/-!
# Sources

The extension of a file tells in which dialect it is written: `.ts`, `.mts` and `.cts` hold no
markup, and every other file may.
-/

namespace PageReach.Script

/-- The dialect of a file. -/
def Dialect.ofPath (path : String) : Dialect :=
  if [".ts", ".mts", ".cts"].contains (Path.extension path) then .plain else .markup

/-- The common name of a dialect. -/
def Dialect.label : Dialect → String
  | .plain => "typescript"
  | .markup => "tsx"

/-- The tree of the source in the file `path`. -/
def parseFile? (path source : String) : Option SyntaxTree := parse? (.ofPath path) source

end PageReach.Script
