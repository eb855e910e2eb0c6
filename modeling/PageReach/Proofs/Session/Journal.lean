import PageReach.Proofs.Simulation
import PageReach.Proofs.Stateful
import PageReach.Session.Question

/-!
# The journal of a session

A session says what it has counted, but not what it has done: how often its tables were asked, and
which files were read and parsed. The operations of a repository are written for any monad in which
tables can be asked, files read and texts parsed (`Access`). In the monad of a session they are the
operations of the repository themselves (`Access.plain`). In another one, every such deed is noted
in a journal (`noting`), and apart from the journal nothing changes (`related_noting`,
`exists_journal`).

Project configurations are not among the files of a session. They are read by the resolver, which
has a memory of its own for them.
-/

namespace PageReach

open Script

/-- What a session is asked for. Disks change, so each call has a repository or a resolver of its
own. -/
inductive Session.Call where
  | ask (r : Repository) (generated : Table String) (question : Question) (file : String)
  | resolve (resolver : Resolver) (file specifier : String)

/-- Does what a call asks for, by `answer` or `resolve`. -/
def Access.perform {m : Type → Type} [Monad m] (a : Access m) : Session.Call → m Unit
  | .ask r generated question file => do
    let _ ← a.answer r generated file question
  | .resolve resolver file specifier => do
    let _ ← a.resolve resolver file specifier

@[inherit_doc Access.perform]
def Session.Call.perform : Session.Call → Run Unit := Access.plain.perform

section

variable {m n : Type → Type} [Monad m] [Monad n] {α : Type}

/-! ## Two monads: `Access.Related` -/

namespace Access

/-- Two ways `a` and `b` to what a session works with, related step by step by `S`. -/
structure Related (S : Simulation m n) (a : Access m) (b : Access n) : Prop where
  consult : ∀ {α : Type} (look : Session → Option α), S.Rel (a.consult look) (b.consult look)
  read : ∀ r file, S.Rel (a.read r file) (b.read r file)
  parse : ∀ file source, S.Rel (a.parse file source) (b.parse file source)
  inside : ∀ {α : Type} (x : Run α), S.Rel (a.inside x) (b.inside x)

variable {S : Simulation m n} {a : Access m} {b : Access n}

theorem Related.lookUp (H : Related S a b) (look : Session → Option α) :
    S.Rel (a.lookUp look) (b.lookUp look) := by
  refine S.bind (H.consult look) fun found => ?_
  cases found <;> exact S.bind (H.inside _) fun _ => S.pure _

theorem Related.recall (H : Related S a b) (shelf : Shelf α) (file : String) {work : m α}
    {work' : n α} (hwork : S.Rel work work') :
    S.Rel (a.recall shelf file work) (b.recall shelf file work') := by
  refine S.bind (H.lookUp _) fun found => ?_
  cases found with
  | some v => exact S.pure v
  | none => exact S.bind hwork fun v => S.bind (H.inside _) fun _ => S.pure v

namespace Related

theorem text (H : Related S a b) (r : Repository) (file : String) :
    S.Rel (a.text r file) (b.text r file) :=
  H.recall _ file (H.read r file)

theorem tree (H : Related S a b) (r : Repository) (file : String) :
    S.Rel (a.tree r file) (b.tree r file) := by
  refine S.bind (H.inside _) fun found => ?_
  cases found with
  | some t => exact S.pure t
  | none =>
      have hput (t : Except ParseFailure SyntaxTree) : S.Rel
          (do a.inside (modify (Session.putTree · file t)); return t)
          (do b.inside (modify (Session.putTree · file t)); return t) :=
        S.bind (H.inside _) fun _ => S.pure t
      refine S.bind (H.text r file) fun text => ?_
      cases text with
      | none => exact S.bind (S.pure _) hput
      | some source => exact S.bind (H.parse file source) fun _ => S.bind (S.pure _) hput

theorem edges (H : Related S a b) (r : Repository) (file : String) :
    S.Rel (a.edges r file) (b.edges r file) := by
  refine H.recall _ file (S.bind (H.tree r file) fun t => ?_)
  cases t <;> exact S.pure _

theorem surface (H : Related S a b) (r : Repository) (file : String) :
    S.Rel (a.surface r file) (b.surface r file) := by
  refine H.recall _ file (S.bind (H.tree r file) fun t => ?_)
  cases t <;> exact S.pure _

theorem facts (H : Related S a b) (r : Repository) (generated : Table String) (file : String) :
    S.Rel (a.facts r generated file) (b.facts r generated file) := by
  refine H.recall _ file (S.bind (H.text r file) fun text => ?_)
  cases text with
  | none => exact S.pure _
  | some source =>
      dsimp only
      split
      · refine S.bind (H.tree r file) fun t => ?_
        cases t <;> exact S.pure _
      · exact S.pure _

theorem resolve (H : Related S a b) (resolver : Resolver) (file specifier : String) :
    S.Rel (a.resolve resolver file specifier) (b.resolve resolver file specifier) := by
  rw [Access.resolve, Access.resolve]
  split
  · exact S.pure _
  · refine S.bind (H.lookUp _) fun found => ?_
    cases found with
    | some target => exact S.pure target
    | none => exact S.bind (H.inside _) fun target => S.bind (H.inside _) fun _ => S.pure target

theorem answer (H : Related S a b) (r : Repository) (generated : Table String) (file : String)
    (question : Question) :
    S.Rel (a.answer r generated file question) (b.answer r generated file question) := by
  cases question with
  | text => exact S.bind (H.text r file) fun _ => S.pure _
  | tree => exact S.bind (H.tree r file) fun _ => S.pure _
  | edges => exact S.bind (H.edges r file) fun _ => S.pure _
  | surface => exact S.bind (H.surface r file) fun _ => S.pure _
  | facts => exact S.bind (H.facts r generated file) fun _ => S.pure _

theorem perform (H : Related S a b) (c : Session.Call) : S.Rel (a.perform c) (b.perform c) := by
  cases c with
  | ask r generated question file =>
      exact S.bind (H.answer r generated file question) fun _ => S.pure _
  | resolve resolver file specifier =>
      exact S.bind (H.resolve resolver file specifier) fun _ => S.pure _

theorem performAll (H : Related S a b) (calls : List Session.Call) :
    S.Rel (calls.forM a.perform) (calls.forM b.perform) := by
  induction calls with
  | nil => exact S.pure _
  | cons c calls ih => exact S.bind (H.perform c) fun _ => ih

end Related

end Access

end

/-! ## Noting what is done: `noting` -/

/-- What is noted in a journal. -/
inductive Session.Deed where
  /-- A table of which hits and misses are counted was asked. -/
  | consulted
  /-- A file was read from the disk, or it was tried to. -/
  | read (file : String)
  /-- The text of a file was parsed. -/
  | parsed (file : String)
deriving DecidableEq

/-- A session with all `deeds` that have been done in it, in order. -/
structure Journal where
  session : Session := {}
  deeds : List Session.Deed := []

namespace Journal

/-- Computations of which a `Journal` is kept. -/
abbrev Noting := ExceptT Fault (StateM Journal)

/-- Works in the session of a journal, and notes `deeds`. -/
def noted {α : Type} (deeds : List Session.Deed) (x : Run α) : Noting α := ExceptT.mk do
  let j ← get
  let (outcome, session) := x.run.run j.session
  set (⟨session, j.deeds ++ deeds⟩ : Journal)
  return outcome

/-- Tables, disk and parser as they are, with a note about each use. -/
def noting : Access Noting where
  consult look := noted [.consulted] (Access.plain.consult look)
  read r file := noted [.read file] (Access.plain.read r file)
  parse file source := noted [.parsed file] (Access.plain.parse file source)
  inside x := noted [] (Access.plain.inside x)

theorem noted_on {α : Type} (deeds : List Session.Deed) (x : Run α) (j : Journal) :
    (noted deeds x).on j = ((x.on j.session).1, ⟨(x.on j.session).2, j.deeds ++ deeds⟩) := rfl

/-- Apart from the journal, a computation does the same as another one: a `Simulation`. -/
def forgetting : Simulation Noting Run where
  Rel x y := ∀ j, ((x.on j).1, (x.on j).2.session) = y.on j.session
  pure a j := rfl
  bind {α β x y f g} hx hf j := by
    rw [ExceptT.on_bind, ExceptT.on_bind, ← hx j]
    rcases x.on j with ⟨_ | a, j'⟩
    · rfl
    · exact hf a j'

theorem forgetting_noted {α : Type} (deeds : List Session.Deed) (x : Run α) :
    forgetting.Rel (noted deeds x) x := by
  intro j
  rw [noted_on]

theorem related_noting : Access.Related forgetting noting .plain where
  consult _ := forgetting_noted _ _
  read _ _ := forgetting_noted _ _
  parse _ _ := forgetting_noted _ _
  inside _ := forgetting_noted _ _

/-- **Keeping a journal changes nothing else**: calls that come back without one come back with
one. -/
theorem exists_journal {calls : List Session.Call} {s : Session}
    (h : (calls.forM Session.Call.perform).on {} = (.ok ⟨⟩, s)) :
    ∃ deeds, (calls.forM noting.perform).on {} = (.ok ⟨⟩, ⟨s, deeds⟩) := by
  have hrun := related_noting.performAll calls {}
  rw [← Session.Call.perform, h] at hrun
  obtain ⟨houtcome, hsession⟩ := Prod.mk.inj hrun
  exact ⟨_, Prod.ext houtcome (by rw [← hsession])⟩

end Journal

end PageReach
