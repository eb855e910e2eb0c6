import PageReach.Reach.Evidence
import PageReach.Reach.Page
import PageReach.Reach.Threshold
import PageReach.Session.Repository
import PageReach.Session.Statistics

/-!
# Attributing operations to pages

A run makes two passes over the pages. The first walks from each page and counts for every file how
many pages reach it. The second comes only when all pages are walked: it works out the thresholds
from the counts, and adds to each page the operations that the page did not list before. Pages are
numbered, since a run may be given one page several times: what it adds to the page then shows each
time that the page comes up.

One engine can make several runs. Its session lasts, and the counts are those of the latest run.
-/

namespace PageReach

/-- A repository with what is needed to walk through it. -/
structure Engine where
  repository : Repository
  resolver : Resolver
  /-- The most files that a walk visits. -/
  limit : Nat := Walk.usualLimit

namespace Engine

/-- What changes while an engine works. -/
structure State where
  session : Session := {}
  /-- The number of pages that reach each file. -/
  reachability : Table Nat := .empty

/-- Computations of an engine. A fault leaves the state as it is at that point. -/
abbrev Work := ExceptT Fault (StateM State)

/-- Works in the engine's session. -/
def inSession {α : Type} (work : Run α) : Work α := ExceptT.mk do
  let s ← get
  let (outcome, session) := work.run.run s.session
  set { s with session }
  return outcome

/-- The engine of a repository whose configuration tells the aliases. -/
def ofRepository (r : Repository) (index : FileIndex) : Except Fault Engine := do
  return { repository := r, resolver := ← Resolver.ofRepository r.disk r.root index }

/-- The indexed files. -/
def index (e : Engine) : FileIndex := e.resolver.index

/-- The journey from a file, given facts about operations by file. -/
def journey (e : Engine) (entry : String) (facts : Table (List Fact)) : Journey Run where
  graph := e.repository.graph e.resolver
  entry := entry
  facts := facts
  fileCount := e.index.files.length
  limit := e.limit

/-- The walk from a file, given facts about operations by file. -/
def walk (e : Engine) (entry : String) (facts : Table (List Fact)) : Run Walk :=
  (e.journey entry facts).walk

/-- The origin of a name as a file exports it, with the files entered in the search. A fault comes
with the files that have been entered until then. -/
def origin (e : Engine) (file name : String) (visited : List String) :
    ExceptT (Fault × List String) (StateM Session) Origin.Search :=
  Origin.searchIn (fun visited => (e.repository.graph e.resolver).map (ExceptT.adapt (·, visited)))
    (e.index.files.length + 2) file name visited

/-! ### The first pass -/

/-- Adds a fact to those of its file. -/
def addFact (t : Table (List Fact)) (f : Fact) : Table (List Fact) :=
  t.insert f.file ((t.get? f.file).getD [] ++ [f])

/-- The facts about operations in indexed files, by file. -/
def factsByFile (e : Engine) (sources : List OperationSource) : Table (List Fact) :=
  ((sources.flatMap OperationSource.facts).filter fun f => e.index.contains f.file).foldl addFact
    .empty

/-- A page with the walk from its entry. -/
structure Tour (n : Nat) where
  /-- The number of the page. -/
  page : Fin n
  /-- The entry and the walk; nothing, if the page has no entry. -/
  walked : Option (String × Walk)

/-- Counts a file once more. -/
def countFile (t : Table Nat) (file : String) : Table Nat :=
  t.insert file ((t.get? file).getD 0 + 1)

/-- What is told of each walk: the number of visited files, and whether it was truncated. -/
structure WalkSummary where
  visited : Nat
  truncated : Bool
deriving DecidableEq, Repr, Inhabited

/-- Walks from a page and adds what is told of the walk under the page's route. -/
def tour (e : Engine) (facts : Table (List Fact)) (page : Page) (told : Table WalkSummary) :
    Work (Option (String × Walk) × Table WalkSummary) := do
  let file? ← ExceptT.mk (pure page.fileText?)
  match file?.bind e.index.locate with
  | none => return (none, told)
  | some entry =>
    let w ← inSession (e.walk entry facts)
    modify fun s => { s with reachability := w.visited.foldl countFile s.reachability }
    let key ← ExceptT.mk (pure page.routeKey)
    return (some (entry, w), told.insert key ⟨w.visited.length, w.truncated⟩)

/-- Walks from the pages with the given numbers, one after the other. -/
def tourAll {n : Nat} (e : Engine) (facts : Table (List Fact)) (pages : Vector Page n) :
    List (Fin n) → Table WalkSummary → Work (List (Tour n) × Table WalkSummary)
  | [], told => return ([], told)
  | i :: order, told => do
    let (walked, told) ← e.tour facts (pages.get i) told
    let (ts, told) ← tourAll e facts pages order told
    return (⟨i, walked⟩ :: ts, told)

/-! ### The second pass -/

/-- The thresholds of a run. -/
structure Thresholds where
  common : Int
  few : Int
deriving DecidableEq, Repr, Inhabited

/-- The thresholds for so many pages, given the number of pages that reach each file. -/
def thresholds (reachability : Table Nat) (pages : Nat) : Except Fault Thresholds := do
  return ⟨← Threshold.common (reachability.values.map Int.ofNat), ← Threshold.few pages⟩

/-- The attribution of an operation to a page, given the number of pages that reach the file of the
operation and the text of that file. -/
def attributionOf (page : Page) (entry : String) (w : Walk) (t : Thresholds) (fact : Fact)
    (hops reach : Nat) (source : Option String) : Attribution :=
  let (classification, confidence) := classify hops reach t.common t.few
  { page := page.route, name := fact.name, kind := fact.kind, file := fact.file, hops, reach,
    classification, confidence,
    evidence := Evidence.ofSource w.parents entry fact.file fact.name source }

/-- The attribution of an operation to a page. -/
def attribution (e : Engine) (page : Page) (entry : String) (w : Walk) (t : Thresholds)
    (fact : Fact) (hops : Nat) : Work Attribution := do
  let reach := ((← get).reachability.get? fact.file).getD 0
  let source ← inSession (e.repository.text fact.file)
  return attributionOf page entry w t fact hops reach source

/-- The operations of a walk that a page does not list yet, nearest first. -/
def newFacts (w : Walk) (known : List String) : List (Fact × Nat) :=
  (w.best.values.mergeSort fun a b => a.2 ≤ b.2).filter fun (f, _) => !known.contains f.name

/-- The attributions to be added to a page. -/
def additions (e : Engine) (t : Thresholds) (page : Page) (walked : Option (String × Walk)) :
    Work (List Attribution) := do
  match walked with
  | none => return []
  | some (entry, w) =>
    let known ← ExceptT.mk (pure (Listed.names page.entries))
    (newFacts w known).mapM fun (fact, hops) => e.attribution page entry w t fact hops

/-- A page with attributions added to its list. -/
def extend (page : Page) (added : List Attribution) : Page :=
  { page with entries := page.entries ++ added.map .attribution }

/-- The pages with attributions added to the list of one of them. -/
def addTo {n : Nat} (pages : Vector Page n) (i : Fin n) (added : List Attribution) : Vector Page n :=
  pages.set i (extend (pages.get i) added)

/-- Adds to each page its attributions and counts them. Where a fault stops the run, the pages
before have theirs already. -/
def attributeAll {n : Nat} (e : Engine) (t : Thresholds) :
    List (Tour n) → Vector Page n → StateM State (Vector Page n × Except Fault Nat)
  | [], pages => return (pages, .ok 0)
  | tour :: tours, pages => do
    match ← (e.additions t (pages.get tour.page) tour.walked).run with
    | .error f => return (pages, .error f)
    | .ok added =>
      let (pages, count) ← attributeAll e t tours (addTo pages tour.page added)
      return (pages, count.map (added.length + ·))

/-! ### Runs -/

/-- What a run has done. -/
structure Report where
  totalPages : Nat
  pagesSkipped : Nat
  attributionsAdded : Nat
  thresholds : Thresholds
  reachability : Table Nat
  walks : Table WalkSummary
  statistics : Statistics
deriving Repr, Inhabited

/-- The second pass of a run, and its report. -/
def finish {n : Nat} (e : Engine) (pages : Vector Page n) (tours : List (Tour n))
    (walks : Table WalkSummary) : StateM State (Vector Page n × Except Fault Report) := do
  let total := (tours.filter (·.walked.isSome)).length
  match thresholds (← get).reachability total with
  | .error f => return (pages, .error f)
  | .ok t =>
    let (after, added) ← e.attributeAll t tours pages
    let s ← get
    return (after, added.map fun n =>
      { totalPages := total, pagesSkipped := tours.length - total, attributionsAdded := n,
        thresholds := t, reachability := s.reachability, walks,
        statistics := .ofSession s.session })

/-- Adds to each page the operations that it reaches. The pages come up in the given order, in which
one may stand several times. -/
def enrich {n : Nat} (e : Engine) (pages : Vector Page n) (order : List (Fin n))
    (sources : List OperationSource) : StateM State (Vector Page n × Except Fault Report) := do
  modify fun s => { s with reachability := .empty }
  match ← (e.tourAll (e.factsByFile sources) pages order .empty).run with
  | .error f => return (pages, .error f)
  | .ok (tours, walks) => e.finish pages tours walks

/-- Why pages are not enriched. -/
inductive Failure where
  | input (e : InputError)
  | fault (f : Fault)
deriving Repr, Inhabited

/-- Adds to each page the operations that it reaches, if the pages are as a run needs them, and else
leaves everything as it is. Each page comes up once. -/
def enrichInput (e : Engine) (input : PagesInput) (sources : List OperationSource) :
    StateM State (Option (List Page) × Except Failure Report) := do
  match Page.checkAll input with
  | .error problem => return (none, .error (.input problem))
  | .ok pages =>
    let (pages, outcome) ← e.enrich ⟨pages.toArray, rfl⟩ (List.finRange _) sources
    return (some pages.toList, outcome.mapError .fault)

end Engine

end PageReach
