import PageReach.Proofs.Engine.Outcomes
import PageReach.Reach.Calls

/-!
# Replies do not depend on earlier calls

Calls leave nothing behind in an engine but what a new one would find out as well
(`faithful_after`). So each reply is the one that a new engine gives, except for the statistics of
the session (`reply_alike`, `replies_as_new`).
-/

namespace PageReach.Engine

variable {e : Engine} {n : Nat} {st st₂ : State}

/-- A report without the statistics of the session. -/
def Report.plain (r : Report) : Report := { r with statistics := default }

/-- A reply without the statistics of the session. -/
def Reply.plain : Reply → Reply
  | .resolve outcome => .resolve outcome
  | .origin outcome visited => .origin outcome visited
  | .walk outcome => .walk outcome
  | .enrich pages outcome => .enrich pages (outcome.map Report.plain)
  | .enrichInput pages outcome => .enrichInput pages (outcome.map Report.plain)

/-- Two ways `r` and `r₂` of a run are the same but for statistics, and the first leaves a
`Faithful` session. -/
def Alike {α ε : Type} (e : Engine) (r r₂ : (α × Except ε Report) × State) : Prop :=
  r.1.1 = r₂.1.1 ∧ r.1.2.map Report.plain = r₂.1.2.map Report.plain ∧ e.Faithful r.2.session

/-! ## Answers in a session: `Tells` -/

theorem answers_resolve_eq (e : Engine) (file specifier : String) :
    e.answers.resolve file specifier = e.resolver.resolve file specifier := by
  by_cases h : specifier = ""
  · subst h
    rfl
  · exact answers_resolve h file

theorem tells_origin (e : Engine) (file name : String) (visited : List String) :
    Tells (e.repository.answers e.resolver) e.answers (e.origin file name visited)
      (Origin.searchIn (fun visited => e.answers.graph.map (Except.mapError (·, visited)))
        (e.index.files.length + 2) file name visited) :=
  Simulation.searchIn (fun visited => giving_adapted_graph _ _ _ (·, visited)) _ file name visited

theorem alike_of_tells {ε α : Type} {x : ExceptT ε (StateM Session) α} {v : Except ε α}
    (h : Tells (e.repository.answers e.resolver) e.answers x v) {s : Session} (hs : e.Faithful s) :
    (x.on s).1 = (x.on {}).1 ∧ e.Faithful (x.on s).2 := by
  obtain ⟨s', hrun, hs'⟩ := h s hs
  obtain ⟨s₂, hrun₂, -⟩ := h {} (faithful_new e)
  rw [hrun, hrun₂]
  exact ⟨rfl, hs'⟩

/-! ## Runs that are `Alike` -/

theorem steady_attributeAll (e : Engine) (t : Thresholds) (tours : List (Tour n))
    (pages : Vector Page n) (counts : Table Nat) :
    ∃ v, ∀ s, e.Faithful s → ∃ s',
      (e.attributeAll t tours pages).run ⟨s, counts⟩ = (v, ⟨s', counts⟩) ∧ e.Faithful s' := by
  induction tours generalizing pages with
  | nil => exact ⟨(pages, .ok 0), fun s hs => ⟨s, rfl, hs⟩⟩
  | cons tour tours ih =>
      have hfirst (s : Session) (hs : e.Faithful s) :=
        additions_on hs t counts (pages.get tour.page) tour.walked
      cases hadded : e.additionsOf t counts (pages.get tour.page) tour.walked with
      | error fault =>
          refine ⟨(pages, .error fault), fun s hs => ?_⟩
          obtain ⟨s', hrun, hs'⟩ := hfirst s hs
          refine ⟨s', ?_, hs'⟩
          rw [attributeAll_cons, hrun, hadded]
      | ok added =>
          obtain ⟨⟨after, count⟩, hrest⟩ := ih (addTo pages tour.page added)
          refine ⟨(after, count.map (added.length + ·)), fun s hs => ?_⟩
          obtain ⟨s₁, hrun, hs₁⟩ := hfirst s hs
          obtain ⟨s₂, hrun₂, hs₂⟩ := hrest s₁ hs₁
          refine ⟨s₂, ?_, hs₂⟩
          rw [attributeAll_cons, hrun, hadded]
          dsimp only
          rw [hrun₂]

/-- `finish` does the same in all `Faithful` sessions, and reports the same but for statistics. -/
theorem finish_alike (pages : Vector Page n) (tours : List (Tour n)) (walks : Table WalkSummary)
    (counts : Table Nat) {s s₂ : Session} (hs : e.Faithful s) (hs₂ : e.Faithful s₂) :
    e.Alike ((e.finish pages tours walks).run ⟨s, counts⟩)
      ((e.finish pages tours walks).run ⟨s₂, counts⟩) := by
  rw [finish_run, finish_run]
  cases thresholds counts (walkedPages tours) with
  | error fault => exact ⟨rfl, rfl, hs⟩
  | ok t =>
      obtain ⟨⟨after, count⟩, hrun⟩ := steady_attributeAll e t tours pages counts
      obtain ⟨s', hrun₁, hs'⟩ := hrun s hs
      obtain ⟨s₂', hrun₂, -⟩ := hrun s₂ hs₂
      dsimp only
      rw [hrun₁, hrun₂]
      cases count <;> exact ⟨rfl, rfl, hs'⟩

theorem enrich_alike (pages : Vector Page n) (order : List (Fin n)) (sources : List OperationSource)
    (hs : e.Faithful st.session) (hs₂ : e.Faithful st₂.session) :
    e.Alike ((e.enrich pages order sources).run st) ((e.enrich pages order sources).run st₂) := by
  obtain ⟨v, counts, hfirst⟩ := steady_tourAll e (e.factsByFile sources) pages order .empty .empty
  obtain ⟨s, hrun, hs'⟩ := hfirst st.session hs
  obtain ⟨s₂, hrun₂, hs₂'⟩ := hfirst st₂.session hs₂
  rw [enrich_run, enrich_run, hrun, hrun₂]
  cases v with
  | error fault => exact ⟨rfl, rfl, hs'⟩
  | ok found =>
      obtain ⟨tours, walks⟩ := found
      exact finish_alike pages tours walks counts hs' hs₂'

theorem enrichInput_run (e : Engine) (input : PagesInput) (sources : List OperationSource)
    (st : State) :
    (e.enrichInput input sources).run st =
      match Page.checkAll input with
      | .error problem => ((none, .error (.input problem)), st)
      | .ok pages =>
        let r := (e.enrich ⟨pages.toArray, rfl⟩ (List.finRange _) sources).run st
        ((some r.1.1.toList, r.1.2.mapError .fault), r.2) := by
  rw [enrichInput]
  cases Page.checkAll input <;> rfl

theorem enrichInput_alike (input : PagesInput) (sources : List OperationSource)
    (hs : e.Faithful st.session) (hs₂ : e.Faithful st₂.session) :
    e.Alike ((e.enrichInput input sources).run st) ((e.enrichInput input sources).run st₂) := by
  rw [enrichInput_run, enrichInput_run]
  cases Page.checkAll input with
  | error problem => exact ⟨rfl, rfl, hs⟩
  | ok pages =>
      obtain ⟨hpages, hreport, hs'⟩ :=
        enrich_alike ⟨pages.toArray, rfl⟩ (List.finRange _) sources hs hs₂
      refine ⟨congrArg (some ·.toList) hpages, ?_, hs'⟩
      have hmap (x : Except Fault Report) :
          (x.mapError Failure.fault).map Report.plain =
            (x.map Report.plain).mapError Failure.fault := by
        cases x <;> rfl
      dsimp only
      rw [hmap, hmap, hreport]

/-! ## Calls: `reply` -/

/-- One call: whatever a `Faithful` session remembers, the reply is that of a new engine. -/
theorem reply_alike (c : Call) (hs : e.Faithful st.session) :
    ((e.reply c).run st).1.plain = ((e.reply c).run {}).1.plain ∧
      e.Faithful ((e.reply c).run st).2.session := by
  have hnew : e.Faithful ({} : State).session := faithful_new e
  cases c with
  | resolve file specifier =>
      obtain ⟨h, hs'⟩ := alike_of_tells (e := e) (gives_resolve file specifier) hs
      exact ⟨congrArg Reply.resolve h, hs'⟩
  | origin file name visited =>
      obtain ⟨h, hs'⟩ := alike_of_tells (tells_origin e file name visited) hs
      exact ⟨congrArg (fun outcome => (Reply.ofSearch outcome).plain) h, hs'⟩
  | walk entry facts =>
      obtain ⟨h, hs'⟩ := alike_of_tells (walk_on e entry facts) hs
      exact ⟨congrArg Reply.walk h, hs'⟩
  | enrich pages order sources =>
      obtain ⟨hpages, hreport, hs'⟩ := enrich_alike pages order sources hs hnew
      exact ⟨congrArg₂ Reply.enrich hpages hreport, hs'⟩
  | enrichInput input sources =>
      obtain ⟨hpages, hreport, hs'⟩ := enrichInput_alike input sources hs hnew
      exact ⟨congrArg₂ Reply.enrichInput hpages hreport, hs'⟩

/-- After `calls` of whatever kind, the session of an engine is `Faithful`, since each reply leaves
such a session behind (`reply_alike`). -/
theorem faithful_after (e : Engine) (calls : List Call) : e.Faithful (e.after calls).session :=
  (mapM_run (I := fun st : State => e.Faithful st.session) (p := Reply.plain)
    (fun c _ _ hs => reply_alike c hs) (faithful_new e)).2

/-- **Replies do not depend on earlier calls.** Each of them is the reply of a new engine, but for
statistics. In particular, specifiers resolve in a session as they do without one, whether or not
configurations are remembered. -/
theorem replies_as_new (e : Engine) (calls : List Call) :
    ((e.replies calls).run {}).1.map Reply.plain =
      calls.map (fun c => ((e.reply c).run {}).1.plain) ∧
    ∀ (resolver : Resolver) (queries : List (String × String)),
      ((queries.mapM fun q => (Repository.resolve resolver q.1 q.2).run).run {}).1 =
        queries.map (fun q => resolver.resolve q.1 q.2) ∧
      ((queries.mapM fun q => (resolver.resolveRemembering q.1 q.2).run).run {}).1 =
        queries.map fun q => resolver.resolve q.1 q.2 := by
  refine ⟨?_, fun resolver queries => ⟨?_, ?_⟩⟩
  · exact (mapM_run (I := fun st : State => e.Faithful st.session)
      (fun c _ _ hs => reply_alike c hs) (faithful_new e)).1
  · -- faithfulness is about an engine, so one with this resolver is made up
    let e' : Engine := { e with resolver }
    have hquery : ∀ (q : String × String) (s : Session), e'.Faithful s →
        id ((Repository.resolve resolver q.1 q.2).on s).1 = resolver.resolve q.1 q.2 ∧
          e'.Faithful ((Repository.resolve resolver q.1 q.2).on s).2 := by
      intro q s hs
      obtain ⟨s', hrun, hs'⟩ : ∃ s', (Repository.resolve resolver q.1 q.2).on s =
          (e'.answers.resolve q.1 q.2, s') ∧ e'.Faithful s' := gives_resolve q.1 q.2 s hs
      rw [hrun]
      exact ⟨answers_resolve_eq e' q.1 q.2, hs'⟩
    have h := (mapM_run (fun q (_ : q ∈ queries) => hquery q) (faithful_new e')).1
    rwa [List.map_id] at h
  · have hquery : ∀ (q : String × String) (m : ConfigMemory),
        resolver.resolveVia m.answer = resolver.resolve →
        id ((resolver.resolveRemembering q.1 q.2).on m).1 = resolver.resolve q.1 q.2 ∧
          resolver.resolveVia ((resolver.resolveRemembering q.1 q.2).on m).2.answer =
            resolver.resolve := by
      intro q m hm
      obtain ⟨m', hrun, hm'⟩ := Resolver.tells_resolveRemembering q.1 q.2 m hm
      rw [hrun]
      exact ⟨rfl, hm'⟩
    have h := (mapM_run (fun q (_ : q ∈ queries) => hquery q)
      (Resolver.resolve_eq resolver).symm).1
    rwa [List.map_id] at h

end PageReach.Engine
