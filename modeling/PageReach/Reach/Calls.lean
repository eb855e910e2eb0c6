import PageReach.Reach.Engine

/-!
# Calls of an engine

An engine is asked for one thing after the other. It replies to each call in the state that the
calls before have left, so its session serves all of them.
-/

namespace PageReach.Engine

/-- What an engine can be asked for. -/
inductive Call where
  /-- The file that a specifier names in a file. -/
  | resolve (file specifier : String)
  /-- The origin of a name as a file exports it. -/
  | origin (file name : String) (visited : List String)
  /-- The walk from a file. -/
  | walk (entry : String) (facts : Table (List Fact))
  /-- A run over pages that come up in the given order. -/
  | enrich {n : Nat} (pages : Vector Page n) (order : List (Fin n)) (sources : List OperationSource)
  /-- A run over pages as they are given. -/
  | enrichInput (input : PagesInput) (sources : List OperationSource)

/-- What an engine replies to a call; for a run, also the pages as it leaves them. -/
inductive Reply where
  | resolve (outcome : Except Fault (Option String))
  /-- The origin, and the files entered in the search. -/
  | origin (outcome : Except Fault (Option String)) (visited : List String)
  | walk (outcome : Except Fault Walk)
  | enrich {n : Nat} (pages : Vector Page n) (outcome : Except Fault Report)
  | enrichInput (pages : Option (List Page)) (outcome : Except Failure Report)

/-- The reply to a call for an origin. -/
def Reply.ofSearch : Except (Fault × List String) Origin.Search → Reply
  | .ok found => .origin (.ok found.origin) found.visited
  | .error (fault, visited) => .origin (.error fault) visited

/-- Replies to a call. -/
def reply (e : Engine) : Call → StateM State Reply
  | .resolve file specifier => do
    return .resolve (← (inSession (Repository.resolve e.resolver file specifier)).run)
  | .origin file name visited => do
    let s ← get
    let (outcome, session) := (e.origin file name visited).run.run s.session
    set { s with session }
    return Reply.ofSearch outcome
  | .walk entry facts => do
    return .walk (← (inSession (e.walk entry facts)).run)
  | .enrich pages order sources => do
    let (pages, outcome) ← e.enrich pages order sources
    return .enrich pages outcome
  | .enrichInput input sources => do
    let (pages, outcome) ← e.enrichInput input sources
    return .enrichInput pages outcome

/-- Replies to calls one after the other. -/
def replies (e : Engine) (calls : List Call) : StateM State (List Reply) := calls.mapM e.reply

/-- The state of a new engine after some calls. -/
def after (e : Engine) (calls : List Call) : State := ((e.replies calls).run {}).2

end PageReach.Engine
