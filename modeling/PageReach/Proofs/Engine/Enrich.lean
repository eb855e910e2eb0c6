import PageReach.Proofs.Engine.Passes

/-!
# Runs add each operation once

A run leaves everything that is listed for a page where it is, and appends the operations which the
page reaches and does not list. So a second run has nothing to add.

* **Facts** (`mem_factsByFile`): a run keeps the facts about its operations file by file.
* **Walks** (`Toured.exists_met_iff`): what the walk of a page meets.
* **Pages** (`Enriches`, `Toured.enriches`): what the second pass adds is what a page reaches.
* **Runs** (`enrich_ok`, `enrich_again`, `enrich_appends_once`): a run makes two passes, and where
  nothing is left to be added it comes back with the pages as they are.
-/

namespace PageReach.Engine

variable {e : Engine} {n : Nat}

/-! ## The facts of a run: `factsByFile` -/

theorem foldl_addFact (facts : List Fact) (t : Table (List Fact)) (f : String) :
    ((facts.foldl addFact t).get? f).getD [] =
      (t.get? f).getD [] ++ facts.filter fun x => x.file = f := by
  induction facts generalizing t with
  | nil => rw [List.foldl_nil, List.filter_nil, List.append_nil]
  | cons x facts ih =>
      rw [List.foldl_cons, ih, addFact]
      by_cases hf : f = x.file
      · rw [hf, Table.get?_insert_self]
        simp
      · have hne : x.file ≠ f := fun h => hf h.symm
        rw [Table.get?_insert_of_ne _ hf]
        simp [hne]

theorem mem_factsByFile {sources : List OperationSource} {f : String} {fact : Fact} :
    fact ∈ ((e.factsByFile sources).get? f).getD [] ↔
      (∃ x ∈ sources, fact ∈ x.facts) ∧ fact.file = f ∧ f ∈ e.index.files := by
  rw [factsByFile, foldl_addFact, Table.get?_empty, Option.getD_none, List.nil_append,
    List.mem_filter, List.mem_filter, List.mem_flatMap, decide_eq_true_eq, FileIndex.contains,
    List.contains_iff_mem, and_assoc]
  refine and_congr_right fun _ => ⟨?_, ?_⟩
  · rintro ⟨hindex, rfl⟩
    exact ⟨rfl, hindex⟩
  · rintro ⟨rfl, hindex⟩
    exact ⟨hindex, rfl⟩

theorem name_of_mem_facts {x : OperationSource} {fact : Fact} (h : fact ∈ x.facts) :
    fact.name = x.name := by
  obtain ⟨f, -, rfl⟩ := List.mem_map.mp h
  rfl

/-! ## The walks of a run: `Toured` -/

section Toured

variable {sources : List OperationSource} {facts : Table (List Fact)} {page : Page} {entry : String}
  {w : Walk}

theorem Toured.walk (h : e.Toured facts page (some (entry, w))) {s : Session} (hs : e.Faithful s) :
    ∃ s', (e.walk entry facts).on s = (.ok w, s') ∧ e.Faithful s' := by
  obtain ⟨file?, -, -, hw⟩ := h
  rw [← hw]
  exact walk_on e entry facts s hs

theorem Toured.ended (h : e.Toured facts page (some (entry, w))) :
    (e.plain entry facts).Ended w := by
  obtain ⟨s', hrun, -⟩ := h.walk (faithful_new e)
  exact (ended_of_walk (faithful_new e) hrun).1

theorem Toured.indexed (h : e.Toured facts page (some (entry, w))) {f : String}
    (hf : f ∈ w.visited) : f ∈ e.index.files := by
  have hmatch := answered_matches_plain e entry facts (T := False) nofun (Nat.le_refl _)
  rcases List.mem_cons.mp (hmatch.stands_known (h.ended.reaches hf)) with rfl | hf
  · obtain ⟨file?, -, hentry, -⟩ := h
    obtain ⟨file, -, hlocate⟩ := Option.bind_eq_some_iff.mp hentry
    exact FileIndex.mem_of_locate hlocate
  · exact hf

theorem Toured.nearest (h : e.Toured facts page (some (entry, w))) :
    Journey.Nearest ((e.plain entry facts).met w) w.best := by
  rw [h.ended.best_eq]
  exact Journey.nearest_nearest _

/-- What a walk of a run has `met`: the operations with a fact in a visited file. -/
theorem Toured.exists_met_iff (h : e.Toured (e.factsByFile sources) page (some (entry, w)))
    {name : String} :
    (∃ x ∈ (e.plain entry (e.factsByFile sources)).met w, x.1.name = name) ↔
      ∃ x ∈ sources, ∃ fact ∈ x.facts, fact.name = name ∧ fact.file ∈ w.visited := by
  rw [Journey.exists_met_iff]
  constructor
  · rintro ⟨f, hf, fact, hfact, hname⟩
    obtain ⟨⟨x, hx, hmem⟩, rfl, -⟩ := mem_factsByFile.mp hfact
    exact ⟨x, hx, fact, hmem, hname, hf⟩
  · rintro ⟨x, hx, fact, hmem, hname, hf⟩
    exact ⟨fact.file, hf, fact, mem_factsByFile.mpr ⟨⟨x, hx, hmem⟩, rfl, h.indexed hf⟩, hname⟩

theorem Toured.plain {walked : Option (String × Walk)}
    (h : e.Toured (e.factsByFile sources) page walked)
    (hsources : ∀ x ∈ sources, Listed.Undecorated x.name) : Plain walked := by
  rintro entry w rfl x hx
  obtain ⟨hmet, -⟩ := h.nearest.entry _ _ (h.nearest.get?_of_mem_values hx)
  obtain ⟨source, hsource, fact, hfact, hname, -⟩ := h.exists_met_iff.mp ⟨x, hmet, rfl⟩
  rw [← hname, name_of_mem_facts hfact]
  exact hsources source hsource

end Toured

/-! ## What a page gets: `Enriches` -/

/-- The attributions `added` are what a run adds to `page`: operations that the page reaches and
does not list, each once and the nearest first. -/
structure Enriches (e : Engine) (sources : List OperationSource) (page : Page)
    (added : List Attribution) : Prop where
  nodup : (added.map (·.name)).Nodup
  sorted : added.Pairwise (·.hops ≤ ·.hops)
  /-- A page without an entry gets nothing. -/
  nowhere : ∀ file?, page.fileText? = .ok file? → file?.bind e.index.locate = none → added = []
  /-- Other pages get all operations with a fact in a visited file, but for those listed before. -/
  names : ∀ file? entry, page.fileText? = .ok file? → file?.bind e.index.locate = some entry →
    ∃ known w, Listed.names page.entries = .ok known ∧
      (∀ s, e.Faithful s → ∃ s', (e.walk entry (e.factsByFile sources)).on s = (.ok w, s')) ∧
      ∀ name, name ∈ added.map (·.name) ↔
        name ∉ known ∧ ∃ x ∈ sources, ∃ fact ∈ x.facts, fact.name = name ∧ fact.file ∈ w.visited

theorem Toured.enriches {sources : List OperationSource} {page : Page}
    {walked : Option (String × Walk)} {added : List Attribution}
    (h : e.Toured (e.factsByFile sources) page walked) (hadds : Adds page walked added) :
    e.Enriches sources page added := by
  rcases walked with _ | ⟨entry, w⟩
  · obtain ⟨file?, hfile, hentry⟩ := h
    cases show added = [] from hadds
    refine ⟨List.nodup_nil, List.Pairwise.nil, fun _ _ _ => rfl, ?_⟩
    intro file?' entry hfile' hentry'
    cases hfile.symm.trans hfile'
    exact nomatch hentry.symm.trans hentry'
  · obtain ⟨known, hknown, hnames, hhops⟩ := hadds
    refine ⟨?_, ?_, ?_, ?_⟩
    · rw [hnames]
      exact nodup_newFacts_names h.nearest
    · have hsorted : ((newFacts w known).map fun x => (x.2 : Int)).Pairwise (· ≤ ·) :=
        List.pairwise_map.mpr ((sorted_newFacts w known).imp fun hle => Int.ofNat_le.mpr hle)
      rw [← hhops] at hsorted
      exact List.pairwise_map.mp hsorted
    · intro file? hfile hnone
      obtain ⟨file?', hfile', hentry, -⟩ := h
      cases hfile.symm.trans hfile'
      exact nomatch hnone.symm.trans hentry
    · intro file? entry' hfile hentry'
      have hwalk := h
      obtain ⟨file?', hfile', hentry, -⟩ := h
      cases hfile.symm.trans hfile'
      cases hentry.symm.trans hentry'
      refine ⟨known, w, hknown, ?_, ?_⟩
      · intro s hs
        obtain ⟨s', hrun, -⟩ := hwalk.walk hs
        exact ⟨s', hrun⟩
      · intro name
        rw [hnames, mem_newFacts_names hwalk.nearest, hwalk.exists_met_iff]

/-! ## Runs: `enrich` -/

section Runs

variable {sources : List OperationSource} {pages pages' : Vector Page n} {order : List (Fin n)}
  {tours : List (Tour n)} {walks : Table WalkSummary} {st st' : State} {report : Report}

theorem enrich_run (e : Engine) (pages : Vector Page n) (order : List (Fin n))
    (sources : List OperationSource) (st : State) :
    (e.enrich pages order sources).run st =
      match (e.tourAll (e.factsByFile sources) pages order .empty).on ⟨st.session, .empty⟩ with
      | (.error f, st') => ((pages, .error f), st')
      | (.ok (tours, walks), st') => (e.finish pages tours walks).run st' := by
  generalize hr : (e.tourAll (e.factsByFile sources) pages order .empty).on
    ⟨st.session, .empty⟩ = r
  rw [ExceptT.on] at hr
  rw [enrich, StateT.run_bind]
  show StateT.run ((e.tourAll (e.factsByFile sources) pages order .empty).run >>= _)
    ⟨st.session, .empty⟩ = _
  rw [StateT.run_bind, hr]
  obtain ⟨_ | ⟨tours, walks⟩, st'⟩ := r <;> rfl

/-- The number of `tours` of pages with an entry. -/
def walkedPages (tours : List (Tour n)) : Nat := (tours.filter (·.walked.isSome)).length

theorem finish_run (e : Engine) (pages : Vector Page n) (tours : List (Tour n))
    (walks : Table WalkSummary) (st : State) :
    (e.finish pages tours walks).run st =
      match thresholds st.reachability (walkedPages tours) with
      | .error f => ((pages, .error f), st)
      | .ok t =>
        let r := (e.attributeAll t tours pages).run st
        ((r.1.1, r.1.2.map fun count =>
          { totalPages := walkedPages tours, pagesSkipped := tours.length - walkedPages tours,
            attributionsAdded := count, thresholds := t, reachability := r.2.reachability, walks,
            statistics := .ofSession r.2.session }), r.2) := by
  rw [finish, StateT.run_bind, StateT.run_get, pure_bind, walkedPages]
  dsimp only
  cases thresholds st.reachability (tours.filter (·.walked.isSome)).length <;> rfl

/-- A run that comes back has made its two passes, `tourAll` and `attributeAll`. -/
theorem enrich_ok (h : (e.enrich pages order sources).run st = ((pages', .ok report), st')) :
    ∃ tours walks st₁,
      (e.tourAll (e.factsByFile sources) pages order .empty).on ⟨st.session, .empty⟩ =
        (.ok (tours, walks), st₁) ∧
      thresholds st₁.reachability (walkedPages tours) = .ok report.thresholds ∧
      (e.attributeAll report.thresholds tours pages).run st₁ =
        ((pages', .ok report.attributionsAdded), st') ∧
      report.reachability = st'.reachability := by
  rw [enrich_run] at h
  split at h
  · exact nomatch h
  · rename_i tours walks st₁ hfirst
    rw [finish_run] at h
    split at h
    · exact nomatch h
    · rename_i t hthresholds
      generalize hsecond : (e.attributeAll t tours pages).run st₁ = r at h
      obtain ⟨⟨pages₂, outcome⟩, st₂⟩ := r
      cases outcome with
      | error fault => exact nomatch h
      | ok count =>
          cases h
          exact ⟨tours, walks, st₁, hfirst, hthresholds, hsecond, rfl⟩

/-- Where nothing is left to be added, a run comes back with the pages as they are. It makes the walks
of an earlier run, if only attributions have changed in between. -/
theorem enrich_again {st₁ st₂ : State} {t : Thresholds} (hs : e.Faithful st.session)
    (hs₂ : e.Faithful st₂.session)
    (hfirst : (e.tourAll (e.factsByFile sources) pages order .empty).on ⟨st.session, .empty⟩ =
      (.ok (tours, walks), st₁))
    (hthresholds : thresholds st₁.reachability (walkedPages tours) = .ok t)
    (hfile : ∀ i, (pages'.get i).file = (pages.get i).file)
    (hroute : ∀ i, (pages'.get i).route = (pages.get i).route)
    (hnil : ∀ x ∈ tours, Adds (pages'.get x.page) x.walked []) :
    ∃ report₂ st₂', (e.enrich pages' order sources).run st₂ = ((pages', .ok report₂), st₂') ∧
      report₂.attributionsAdded = 0 ∧ report₂.thresholds = t ∧
      report₂.reachability = st₁.reachability := by
  have hsteady := steady_tourAll e (e.factsByFile sources) pages order .empty
  obtain ⟨s₂, hfirst₂⟩ := hsteady.again hs hs₂ hfirst
  rw [enrich_run, tourAll_congr hfile hroute, hfirst₂]
  dsimp only
  rw [finish_run, hthresholds]
  dsimp only
  rw [attributeAll_of_nil hnil]
  exact ⟨_, _, rfl, rfl, rfl, rfl⟩

end Runs

/-- **A run appends each operation once.** What is listed for a page stays in front, and then come
the operations that the page reaches and did not list. The `report` counts all of them. A second
run, in whatever `Faithful` session, adds nothing and reports the same. -/
theorem enrich_appends_once (e : Engine) {n : Nat} (pages pages' : Vector Page n)
    (order : List (Fin n)) (sources : List OperationSource) (st st' : State) (report : Report)
    (hs : e.Faithful st.session) (hsources : ∀ x ∈ sources, Listed.Undecorated x.name)
    (hrun : (e.enrich pages order sources).run st = ((pages', .ok report), st')) :
    (∃ added : Fin n → List Attribution,
      (∀ i, pages'.get i = { pages.get i with
        entries := (pages.get i).entries ++ (added i).map .attribution }) ∧
      report.attributionsAdded = ∑ i, (added i).length ∧
      (∀ i, i ∉ order → added i = []) ∧
      ∀ i ∈ order, e.Enriches sources (pages.get i) (added i)) ∧
    e.Faithful st'.session ∧
    ∀ st₂ : State, e.Faithful st₂.session → ∃ report₂ st₂',
      (e.enrich pages' order sources).run st₂ = ((pages', .ok report₂), st₂') ∧
      report₂.attributionsAdded = 0 ∧ report₂.thresholds = report.thresholds ∧
      report₂.reachability = report.reachability := by
  obtain ⟨tours, walks, st₁, hfirst, hthresholds, hsecond, hreach⟩ := enrich_ok hrun
  have hs₀ : e.Faithful (State.mk st.session .empty).session := hs
  obtain ⟨hpages, htoured⟩ := tourAll_ok hs₀ hfirst
  -- a page that comes up several times has the same walk each time
  have hsame : ∀ x ∈ tours, ∀ y ∈ tours, x.page = y.page → x.walked = y.walked := by
    intro x hx y hy hpage
    exact (htoured x hx).unique (hpage ▸ htoured y hy)
  have hplain : ∀ x ∈ tours, Plain x.walked := fun x hx => (htoured x hx).plain hsources
  obtain ⟨added, hextend, hcount, hothers, hadds⟩ := attributeAll_ok hsame hplain hsecond
  have hs₁ : e.Faithful st₁.session := by
    have hfaithful :=
      (steady_tourAll e (e.factsByFile sources) pages order .empty).faithful hs₀
    rwa [hfirst] at hfaithful
  refine ⟨⟨added, hextend, hcount, ?_, ?_⟩, ?_, ?_⟩
  · intro i hi
    exact hothers i (hpages ▸ hi)
  · intro i hi
    rw [← hpages] at hi
    obtain ⟨x, hx, rfl⟩ := List.mem_map.mp hi
    exact (htoured x hx).enriches (hadds x hx)
  · have hfaithful := attributeAll_faithful e report.thresholds tours pages hs₁
    rwa [hsecond] at hfaithful
  · intro st₂ hs₂
    have hnil : ∀ x ∈ tours, Adds (pages'.get x.page) x.walked [] := by
      intro x hx
      rw [hextend]
      exact (hadds x hx).extend ((hadds x hx).undecorated (hplain x hx))
    have hcounts : report.reachability = st₁.reachability := by
      have hstill := attributeAll_counts e report.thresholds tours pages st₁
      rw [hsecond] at hstill
      rw [hreach]
      exact hstill
    rw [hcounts]
    exact enrich_again hs hs₂ hfirst hthresholds (fun i => by rw [hextend i]; rfl)
      (fun i => by rw [hextend i]; rfl) hnil

/-- Two pages, one of them in `barrelInCircle`. The other one lists an operation already, under a
decorated name. -/
def pagesInCircle : Vector Page 2 :=
  #v[⟨.text "/a", .text "a.ts", []⟩,
    ⟨.text "/d", .text "d.ts", [.record (.ofList [("operationName", .text "→ GetC")])]⟩]

/-- An operation that both of `pagesInCircle` reach. -/
def operationInCircle : OperationSource := ⟨"GetC", .query, some "c.ts", ["d.ts"]⟩

/-- The first page is given twice and gets the operation once. The second page has it already. -/
theorem enrich_appends_once_of_circle :
    (∀ x ∈ [operationInCircle], Listed.Undecorated x.name) ∧
    ∃ pages' report st',
      ((ofTexts barrelInCircle).enrich pagesInCircle [0, 1, 0] [operationInCircle]).run {} =
        ((pages', .ok report), st') ∧
      report.attributionsAdded = 1 ∧
      (∃ added : Fin 2 → List Attribution,
        (added 0).length + (added 1).length = 1 ∧
        (ofTexts barrelInCircle).Enriches [operationInCircle] (pagesInCircle.get 0) (added 0) ∧
        (ofTexts barrelInCircle).Enriches [operationInCircle] (pagesInCircle.get 1) (added 1)) ∧
      ∃ report₂ st₂,
        ((ofTexts barrelInCircle).enrich pages' [0, 1, 0] [operationInCircle]).run st' =
          ((pages', .ok report₂), st₂) ∧
        report₂.attributionsAdded = 0 := by
  have hsources : ∀ x ∈ [operationInCircle], Listed.Undecorated x.name := by
    intro x hx c hc
    rw [List.mem_singleton.mp hx] at hc
    cases show some 'G' = some c from hc
    decide
  have heval : ((((ofTexts barrelInCircle).enrich pagesInCircle [0, 1, 0]
      [operationInCircle]).run {}).1.2.toOption.map (·.attributionsAdded)) = some 1 := by
    decide +kernel
  generalize hrun : ((ofTexts barrelInCircle).enrich pagesInCircle [0, 1, 0]
    [operationInCircle]).run {} = r at heval
  obtain ⟨⟨pages', outcome⟩, st'⟩ := r
  cases outcome with
  | error fault => exact nomatch heval
  | ok report =>
      have hadded : report.attributionsAdded = 1 := Option.some.inj heval
      obtain ⟨⟨added, -, hcount, -, henriches⟩, hs', hagain⟩ :=
        enrich_appends_once _ _ _ _ _ _ _ _ (faithful_new _) hsources hrun
      obtain ⟨report₂, st₂, hrun₂, hadded₂, -, -⟩ := hagain st' hs'
      rw [hadded, Fin.sum_univ_two] at hcount
      exact ⟨hsources, pages', report, st', rfl, hadded,
        ⟨added, hcount.symm, henriches 0 (by decide), henriches 1 (by decide)⟩,
        report₂, st₂, hrun₂, hadded₂⟩

end PageReach.Engine
