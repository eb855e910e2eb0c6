import PageReach.Data.Json
import PageReach.Files.FileIndex
import PageReach.Fault

/-!
# Settings

The settings of a run come in layers: built-in ones, then a file in the repository, then environment
variables. A value of another type than the built-in one is passed over.
-/

namespace PageReach

open Text

/-- The settings of a run. Patterns come as they are written in the file, where they may be
anything. -/
structure Settings where
  includes : List Value := FileIndex.sourcePatterns.map .text
  excludes : List Value := ["**/*.test.*", "**/*.spec.*", "**/*.stories.*", "**/*.d.ts"].map .text
  /-- Patterns of document files. -/
  documents : List Value := ["**/*.graphql", "**/*.gql"].map .text
  /-- The size from which on a file is left out. -/
  sizeLimit : Int := 2097152
  /-- Whether to write a log file. -/
  fileLogging : Bool := false
  fileLevel : String := "DEBUG"
deriving Repr, Inhabited

namespace Settings

/-- The file in which a repository keeps settings. -/
def path : String := ".pagegraph/config.json"

/-! ### The file -/

/-- The list under a key of a section, or else `known`. -/
def listOr (section? : Option Value) (key : String) (known : List Value) : List Value :=
  ((section?.bind (·.get? key)).bind Value.items?).getD known

/-- The settings of a file on top of others. -/
def addFile (s : Settings) (file : Value) : Settings :=
  let analysis := file.get? "analysis"
  let limits := file.get? "limits"
  let logging := file.get? "logging"
  { includes := listOr analysis "include" s.includes
    excludes := listOr analysis "exclude" s.excludes
    documents := listOr analysis "graphql_include" s.documents
    sizeLimit := match limits.bind (·.get? "max_file_size") with
      | some (.int n) => n
      | _ => s.sizeLimit
    fileLogging := match logging.bind (·.get? "file_logging") with
      | some (.bool b) => b
      | _ => s.fileLogging
    fileLevel := match logging.bind (·.get? "file_level") with
      | some (.text t) => t
      | _ => s.fileLevel }

/-- The value in the settings file of a repository; nothing if there is none that can be read. -/
def readFile (d : Disk) (root : String) : Except Fault Value :=
  let path := Path.join root path
  if d.isFile path then
    match d.readText path with
    | .error .notText => .error .undecodableSettings
    | .error _ => .ok .null
    | .ok source =>
      match Json.parse source with
      | .ok v => .ok v
      | .error .malformed => .ok .null
      | .error .oversizedNumber => .error .oversizedNumber
  else .ok .null

/-! ### The environment -/

/-- Words for yes. -/
def isYes (s : String) : Bool := ["1", "true", "yes", "on"].contains (lower (trim isBlank s))

/-- The parts of a list with commas, without blanks around them; empty ones are left out. -/
def listItems (s : String) : List Value :=
  (((split ',' s).map (trim isBlank)).filter (· ≠ "")).map .text

/-- The settings of the environment on top of others. -/
def addEnvironment (s : Settings) (env : Table String) : Settings :=
  let given (name : String) := env.get? ("PAGEGRAPH_" ++ name)
  { includes := ((given "ANALYSIS_INCLUDE").map listItems).getD s.includes
    excludes := ((given "ANALYSIS_EXCLUDE").map listItems).getD s.excludes
    documents := ((given "ANALYSIS_GRAPHQL_INCLUDE").map listItems).getD s.documents
    sizeLimit := ((given "LIMITS_MAX_FILE_SIZE").bind Numeral.int?).getD s.sizeLimit
    fileLogging := ((given "LOGGING_FILE_LOGGING").map isYes).getD s.fileLogging
    fileLevel := (given "LOGGING_FILE_LEVEL").getD s.fileLevel }

/-- The settings for a repository. -/
def load (d : Disk) (root : String) (env : Table String) : Except Fault Settings := do
  return (({} : Settings).addFile (← readFile d root)).addEnvironment env

end Settings

end PageReach
