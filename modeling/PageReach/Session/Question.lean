import PageReach.Session.Repository

/-!
# Questions about files

A session is asked about files, one question after the other. The disk below it does not keep still:
between two questions it may change in any way.
-/

namespace PageReach

open Script

/-- What can be asked about a file. -/
inductive Question where
  | text
  | tree
  | edges
  | surface
  | facts
deriving DecidableEq, Repr, Inhabited

inductive Answer where
  | text (text : Option String)
  | tree (tree : Except ParseFailure SyntaxTree)
  | edges (edges : List Edge)
  | surface (surface : Surface)
  | facts (facts : List Fact)

/-- What happens to a session and to the disk below it. -/
inductive Event where
  | ask (question : Question) (file : String)
  /-- The disk changes: files are written, made or removed. -/
  | change (f : Disk → Disk)

/-- Answers a question about a file, given the documents that are generated elsewhere. -/
def Access.answer {m : Type → Type} [Monad m] (a : Access m) (r : Repository)
    (generated : Table String) (file : String) : Question → m Answer
  | .text => do return .text (← a.text r file)
  | .tree => do return .tree (← a.tree r file)
  | .edges => do return .edges (← a.edges r file)
  | .surface => do return .surface (← a.surface r file)
  | .facts => do return .facts (← a.facts r generated file)

namespace Repository

@[inherit_doc Access.answer]
def answer (r : Repository) (generated : Table String) (file : String) : Question → Run Answer :=
  Access.plain.answer r generated file

/-- The repository with its disk changed. -/
def changed (r : Repository) (f : Disk → Disk) : Repository := { r with disk := f r.disk }

/-- The answers to the questions among some events, which happen one after the other. -/
def respond (generated : Table String) :
    Repository → List Event → StateM Session (List (Except Fault Answer))
  | _, [] => return []
  | r, .ask question file :: events => do
    let answer ← (r.answer generated file question).run
    return answer :: (← respond generated r events)
  | r, .change f :: events => respond generated (r.changed f) events

end Repository

end PageReach
