import PageReach.Catalog.Basic
import PageReach.Log.Record
import PageReach.Reach.Engine
import PageReach.Settings

/-!
# Enriching a repository's pages

A whole run: settings are read, files are indexed, operations are listed unless they are given, and
the pages get their attributions. Pages that cannot be used are left as they are.
-/

namespace PageReach.Enrichment

/-! ### Selecting files -/

/-- The texts at the front of a list, and whether something else follows. -/
def leadingTexts : List Value → List String × Bool
  | .text s :: vs => ((s :: (leadingTexts vs).1), (leadingTexts vs).2)
  | [] => ([], false)
  | _ => ([], true)

/-- Indexes the files that patterns from settings select. A pattern that is no text is a fault as
soon as a file is compared with it. -/
def select (d : Disk) (root : String) (includes excludes : List Value) (sizeLimit : Option Int) :
    Except Fault FileIndex :=
  let (inc, badInclude) := leadingTexts includes
  let (exc, badExclude) := leadingTexts excludes
  let files := ((d.filesBelow root).map (·.1)).filter fun f => !FileIndex.isSkipped f
  let taken (f : String) := inc.any (Glob.covered · f)
  let s : FileIndex.Selection := { includes := inc, excludes := exc, sizeLimit }
  let takes (f : String) := s.patterns.any (Glob.covered · f)
  if badInclude && files.any (!taken ·) then .error .patternNotText
  else if badExclude && files.any fun f => takes f && !exc.any (Glob.covered · f) then
    .error .patternNotText
  else .ok (.scan d root s)

/-! ### Runs -/

/-- What a run is asked to do. -/
structure Request where
  pages : PagesInput
  /-- Operations, if they are not to be looked for. -/
  sources : Option (List OperationSource)
  includes : Option (List String) := none
  excludes : Option (List String) := none

/-- What a run leaves behind. -/
structure Outcome where
  /-- The pages with their attributions; nothing, if they could not be used. -/
  pages : Option (List Page)
  /-- Whether there is a log file. -/
  logFile : Bool

/-- The path of the log file. -/
def logPath : String := ".pagegraph/logs/pagegraph.log"

/-- Whether a log file is started; the level has to be known for that. -/
def startLog (s : Settings) : Except Fault Bool := do
  if s.fileLogging then
    let _ ← Log.Level.ofAnyCase s.fileLevel
    return true
  else return false

/-- The operations to look for: those given, or else those of the catalog. -/
def sourcesOf (r : Repository) (index : FileIndex) (settings : Settings)
    (given : Option (List OperationSource)) : Engine.Work (List OperationSource) :=
  match given with
  | some sources => return sources
  | none => do
    let documents ← ExceptT.mk (pure (select r.disk r.root settings.documents [] none))
    return (← Engine.inSession (Catalog.ofRepository r (some documents.files) index)).sources

/-- Adds attributions to the pages of a repository. -/
def run (d : Disk) (root : String) (env : Table String) (q : Request) : Except Fault Outcome := do
  let settings ← Settings.load d root env
  let logged ← startLog settings
  let index ← select d root ((q.includes.map (·.map .text)).getD settings.includes)
    ((q.excludes.map (·.map .text)).getD settings.excludes) (some settings.sizeLimit)
  let r : Repository := { disk := d, root, sizeLimit := some settings.sizeLimit }
  let engine ← Engine.ofRepository r index
  let (sources, state) := (sourcesOf r index settings q.sources).run.run {}
  let sources ← sources
  let logFile := logged || d.isFile (Path.join root logPath)
  let ((pages, report), _) := (engine.enrichInput q.pages sources).run state
  match report with
  | .error (.fault f) => .error f
  | _ => return ⟨pages, logFile⟩

end PageReach.Enrichment
