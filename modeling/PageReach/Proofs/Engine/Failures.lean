import PageReach.Proofs.Engine.Replies
import PageReach.Proofs.Walk.Confined

/-!
# What a failed run leaves behind

A run that finds something wrong with its input, or that meets a fault in its first pass, leaves all
pages as they are. In the second pass only one thing can go wrong: a page may list an operation
whose name is not text. But when such a name comes up, the pages before have got their attributions
already.

* **Names** (`names_of_append_error`): what is wrong with the names of a page has been there before.
* **Files** (`Toured.readable`, `additionsOf_error`): every file that the second pass reads has been
  read before, in a walk.
* **The second pass** (`attributeAll_error`): it fails at a page with such a name, and only pages
  that have come up before are changed.
* **Runs** (`enrich_error`, `failed_runs_leave_pages`): all of this for whole runs, after any calls.
-/

namespace PageReach

/-! ## `names` that are not text -/

theorem mapM_returns {α β : Type} {f : α → Except Fault β} {l : List α}
    (h : ∀ a ∈ l, ∃ b, f a = .ok b) : ∃ bs, l.mapM f = .ok bs := by
  induction l with
  | nil => exact ⟨[], rfl⟩
  | cons a l ih =>
      obtain ⟨b, hb⟩ := h a List.mem_cons_self
      obtain ⟨bs, hbs⟩ := ih fun a' ha' => h a' (List.mem_cons_of_mem _ ha')
      rw [List.mapM_cons, hb, hbs]
      exact ⟨b :: bs, rfl⟩

theorem exists_of_mapM_error {α β : Type} {f : α → Except Fault β} {l : List α} {fault : Fault}
    (h : l.mapM f = .error fault) : ∃ a ∈ l, f a = .error fault := by
  induction l with
  | nil => exact nomatch h
  | cons a l ih =>
      rw [List.mapM_cons] at h
      cases ha : f a with
      | error fault' =>
          rw [ha] at h
          cases h
          exact ⟨a, List.mem_cons_self, ha⟩
      | ok b =>
          cases hl : l.mapM f with
          | error fault' =>
              rw [ha, hl] at h
              cases h
              obtain ⟨a', ha', hfault⟩ := ih hl
              exact ⟨a', List.mem_cons_of_mem _ ha', hfault⟩
          | ok bs =>
              rw [ha, hl] at h
              exact nomatch h

namespace Listed

theorem nameNotText_of_names {entries : List Listed} {fault : Fault}
    (h : names entries = .error fault) : fault = .nameNotText := by
  obtain ⟨entry, -, hname⟩ := exists_of_mapM_error h
  unfold name at hname
  split at hname
  · exact nomatch hname
  · exact (Except.error.inj hname).symm

/-- Attributions have names, so whatever is wrong with the names has been there before `added`. -/
theorem names_of_append_error {entries : List Listed} {added : List Attribution} {fault : Fault}
    (h : names (entries ++ added.map .attribution) = .error fault) :
    names entries = .error fault := by
  obtain ⟨texts, hadded⟩ : ∃ texts, names (added.map .attribution) = .ok texts := by
    refine mapM_returns fun entry hentry => ?_
    obtain ⟨a, -, rfl⟩ := List.mem_map.mp hentry
    exact ⟨_, rfl⟩
  rw [names] at h hadded ⊢
  rw [List.mapM_append, hadded] at h
  cases hnames : entries.mapM name with
  | error fault' =>
      rw [hnames] at h
      exact h
  | ok known =>
      rw [hnames] at h
      cases h

end Listed

/-! ## Files that have been read -/

/-- The `Assertion` about what comes out if there is no fault. -/
def returning : Assertion (Except Fault) where
  Holds x P := ∀ a, x = .ok a → P a
  pure h := by
    rintro _ ⟨⟩
    exact h
  bind hx hf := by
    intro b hb
    obtain ⟨a, ha, hb⟩ := exists_ok_of_bind hb
    exact hf a (hx a ha) b hb

namespace Engine

variable {e : Engine} {n : Nat} {page : Page} {t : Thresholds} {counts : Table Nat} {fault : Fault}
  {walked : Option (String × Walk)} {sources : List OperationSource}

theorem confined_answers (e : Engine) :
    returning.Confined e.answers.graph (fun _ => True)
      fun f => ∃ surface, e.answers.surface f = .ok surface where
  edges _ _ := fun _ _ => trivial
  surface _ _ := fun surface hsurface => ⟨surface, hsurface⟩
  resolve _ _ _ := fun _ _ _ _ => trivial

/-- A walk that comes back has read every file that it has `visited`. -/
theorem Toured.readable {facts : Table (List Fact)} {entry f : String} {w : Walk}
    (h : e.Toured facts page (some (entry, w))) (hf : f ∈ w.visited) :
    ∃ source, e.answers.text f = .ok source := by
  obtain ⟨file?, -, -, hw⟩ := h
  have hconfined : returning.Confined (e.answered entry facts).graph _ _ := confined_answers e
  obtain ⟨-, surface, hsurface⟩ := (hconfined.walk trivial w hw).visited f hf
  rw [answers_surface, answers_tree] at hsurface
  have htext : e.answers.text f = e.repository.reading f := rfl
  rw [htext]
  cases hreading : e.repository.reading f with
  | ok source => exact ⟨source, rfl⟩
  | error fault =>
      rw [hreading] at hsurface
      exact nomatch hsurface

/-- `additionsOf` fails only if the page lists a name that is not text. -/
theorem additionsOf_error {page' : Page} (htoured : e.Toured (e.factsByFile sources) page' walked)
    (h : e.additionsOf t counts page walked = .error fault) :
    fault = .nameNotText ∧ Listed.names page.entries = .error .nameNotText := by
  rcases walked with _ | ⟨entry, w⟩
  · exact nomatch h
  · unfold additionsOf at h
    cases hnames : Listed.names page.entries with
    | error fault' =>
        rw [hnames] at h
        cases h
        cases Listed.nameNotText_of_names hnames
        exact ⟨rfl, rfl⟩
    | ok known =>
        rw [hnames] at h
        obtain ⟨x, hx, hfault⟩ := exists_of_mapM_error h
        have hvisited : x.1.file ∈ w.visited := htoured.mem_visited (newFacts_subset w known hx)
        obtain ⟨source, hsource⟩ := htoured.readable hvisited
        rw [hsource] at hfault
        exact nomatch hfault

/-! ## The second pass: `attributeAll` -/

/-- If `attributeAll` fails, then at a page which lists a name that is not text. Only pages that
have come up before it are changed. -/
theorem attributeAll_error {pages pages' : Vector Page n} {tours : List (Tour n)} {st st' : State}
    (hs : e.Faithful st.session)
    (htoured : ∀ x ∈ tours, ∃ page, e.Toured (e.factsByFile sources) page x.walked)
    (h : (e.attributeAll t tours pages).run st = ((pages', .error fault), st')) :
    fault = .nameNotText ∧ ∃ before x after, tours = before ++ x :: after ∧
      Listed.names (pages.get x.page).entries = .error .nameNotText ∧
      ∀ k, k ∉ before.map (·.page) → pages'.get k = pages.get k := by
  induction tours generalizing pages st with
  | nil => exact nomatch h
  | cons tour tours ih =>
      obtain ⟨page, hpage⟩ := htoured tour List.mem_cons_self
      obtain ⟨s₁, hfirst, hs₁⟩ :=
        additions_on hs t st.reachability (pages.get tour.page) tour.walked
      rw [attributeAll_cons, show st = ⟨st.session, st.reachability⟩ from rfl, hfirst] at h
      cases hadded : e.additionsOf t st.reachability (pages.get tour.page) tour.walked with
      | error fault' =>
          rw [hadded] at h
          cases h
          obtain ⟨rfl, hnames⟩ := additionsOf_error hpage hadded
          exact ⟨rfl, [], tour, tours, rfl, hnames, fun _ _ => rfl⟩
      | ok added =>
          rw [hadded] at h
          dsimp only at h
          generalize hrest : (e.attributeAll t tours (addTo pages tour.page added)).run
            ⟨s₁, st.reachability⟩ = r at h
          obtain ⟨⟨pages₂, outcome⟩, st₂⟩ := r
          cases outcome with
          | ok count => exact nomatch h
          | error fault' =>
              cases h
              obtain ⟨rfl, before, x, after, rfl, hnames, hothers⟩ :=
                ih hs₁ (fun x hx => htoured x (List.mem_cons_of_mem _ hx)) hrest
              refine ⟨rfl, tour :: before, x, after, rfl, ?_, ?_⟩
              · -- if the page has come up before, the name was listed then as well
                rw [get_addTo] at hnames
                split at hnames
                · rename_i hx
                  rw [hx]
                  exact Listed.names_of_append_error hnames
                · exact hnames
              · intro k hk
                rw [List.map_cons, List.mem_cons, not_or] at hk
                rw [hothers k hk.2, get_addTo_of_ne hk.1]

/-! ## Runs: `enrich` -/

theorem enrich_error {pages pages' : Vector Page n} {order : List (Fin n)} {st st' : State}
    (hs : e.Faithful st.session)
    (h : (e.enrich pages order sources).run st = ((pages', .error fault), st')) :
    pages' = pages ∨ (fault = .nameNotText ∧ ∃ before i after, order = before ++ i :: after ∧
      Listed.names (pages.get i).entries = .error .nameNotText ∧
      ∀ k, k ∉ before → pages'.get k = pages.get k) := by
  have hs₀ : e.Faithful (State.mk st.session .empty).session := hs
  have hs₁ := (steady_tourAll e (e.factsByFile sources) pages order .empty).faithful hs₀
  -- only the second pass writes to pages, so a failure before it leaves them alone
  rw [enrich_run] at h
  generalize hfirst : (e.tourAll (e.factsByFile sources) pages order .empty).on
    ⟨st.session, .empty⟩ = r at h hs₁
  obtain ⟨_ | ⟨tours, walks⟩, st₁⟩ := r
  · cases h
    exact .inl rfl
  · obtain ⟨hpages, htoured⟩ := tourAll_ok hs₀ hfirst
    dsimp only at h
    rw [finish_run] at h
    cases hthresholds : thresholds st₁.reachability (walkedPages tours) with
    | error fault' =>
        rw [hthresholds] at h
        cases h
        exact .inl rfl
    | ok t =>
        rw [hthresholds] at h
        dsimp only at h
        generalize hsecond : (e.attributeAll t tours pages).run st₁ = r at h
        obtain ⟨⟨pages₂, outcome⟩, st₂⟩ := r
        cases outcome with
        | ok count => exact nomatch h
        | error fault' =>
            cases h
            obtain ⟨rfl, before, x, after, rfl, hnames, hothers⟩ :=
              attributeAll_error hs₁ (fun x hx => ⟨_, htoured x hx⟩) hsecond
            refine .inr ⟨rfl, before.map (·.page), x.page, after.map (·.page), ?_, hnames, hothers⟩
            rw [← hpages, List.map_append, List.map_cons]

theorem leaves_pages_of_named {pages pages' : Vector Page n} {order : List (Fin n)} {st st' : State}
    (hs : e.Faithful st.session)
    (h : (e.enrich pages order sources).run st = ((pages', .error fault), st'))
    (hnames : ∀ i ∈ order, ∃ known, Listed.names (pages.get i).entries = .ok known) :
    pages' = pages := by
  rcases enrich_error hs h with hpages | ⟨-, before, i, after, rfl, hunnamed, -⟩
  · exact hpages
  · obtain ⟨known, hknown⟩ := hnames i (List.mem_append_right _ List.mem_cons_self)
    exact nomatch hknown.symm.trans hunnamed

/-- **What a failed run leaves behind.** If something is wrong with the input, everything stays as it
is. Otherwise the lists of pages are only added to, and they stay as they are if the names of all
listed operations are text. If a list is changed, the run has failed for a name that is not text, at
a page which comes up after all pages that are changed. -/
theorem failed_runs_leave_pages (e : Engine) (earlier : List Call) :
    (∀ input sources problem, Page.checkAll input = .error problem →
      (e.enrichInput input sources).run (e.after earlier) =
        ((none, .error (.input problem)), e.after earlier)) ∧
    (∀ input sources before after failure st', Page.checkAll input = .ok before →
      (e.enrichInput input sources).run (e.after earlier) = ((some after, .error failure), st') →
      (∀ p ∈ before, ∃ known, Listed.names p.entries = .ok known) → after = before) ∧
    ∀ {n : Nat} (pages pages' : Vector Page n) order sources fault st',
      (e.enrich pages order sources).run (e.after earlier) = ((pages', .error fault), st') →
      (∀ i, ∃ added : List Attribution, pages'.get i = { pages.get i with
        entries := (pages.get i).entries ++ added.map .attribution }) ∧
      ((∀ i ∈ order, ∃ known, Listed.names (pages.get i).entries = .ok known) → pages' = pages) ∧
      (pages' ≠ pages → fault = .nameNotText ∧
        ∃ (before : List (Fin n)) (i : Fin n) (after : List (Fin n)), order = before ++ i :: after ∧
        Listed.names (pages.get i).entries = .error .nameNotText ∧
        ∀ k, k ∉ before → pages'.get k = pages.get k) := by
  have hs := faithful_after e earlier
  refine ⟨?_, ?_, ?_⟩
  · intro input sources problem hproblem
    rw [enrichInput_run, hproblem]
  · intro input sources before after failure st' hbefore hrun hnames
    rw [enrichInput_run, hbefore] at hrun
    dsimp only at hrun
    generalize hfailed : (e.enrich ⟨before.toArray, rfl⟩ (List.finRange _) sources).run
      (e.after earlier) = r at hrun
    obtain ⟨⟨pages', outcome⟩, st₁⟩ := r
    cases outcome with
    | ok report => exact nomatch hrun
    | error fault =>
        cases hrun
        rw [leaves_pages_of_named hs hfailed fun i _ => hnames _ (List.getElem_mem _)]
        rfl
  · intro n pages pages' order sources fault st' hrun
    refine ⟨?_, leaves_pages_of_named hs hrun, (enrich_error hs hrun).resolve_left⟩
    have hadds := enrich_adds e pages order sources (e.after earlier)
    rw [hrun] at hadds
    exact hadds

/-- The fault of an outcome, if it is an `error`. -/
def faultOf {α : Type} : Except Fault α → Option Fault
  | .error fault => some fault
  | .ok _ => none

/-- An operation that is defined in `a.ts`. -/
def operationInFile : OperationSource := ⟨"GetA", .query, some "a.ts", []⟩

/-- Pages of which the second has no route that could be a key. -/
def pagesUnrouted : Vector Page 2 :=
  #v[⟨.text "/a", .text "a.ts", []⟩, ⟨.list [], .text "a.ts", []⟩]

/-- The second of `pagesUnrouted` is walked from before the run fails, and nothing is added to the
first. -/
theorem failed_runs_leave_pages_of_route :
    (∀ i ∈ [(0 : Fin 2), 1], ∃ known, Listed.names (pagesUnrouted.get i).entries = .ok known) ∧
    ∃ st', ((ofTexts [("a.ts", "")]).enrich pagesUnrouted [0, 1] [operationInFile]).run
      ((ofTexts [("a.ts", "")]).after []) = ((pagesUnrouted, .error .routeNotKey), st') := by
  have hnames : ∀ i ∈ [(0 : Fin 2), 1], ∃ known,
      Listed.names (pagesUnrouted.get i).entries = .ok known := by
    intro i _
    match i with
    | 0 => exact ⟨[], rfl⟩
    | 1 => exact ⟨[], rfl⟩
  have heval : faultOf (((ofTexts [("a.ts", "")]).enrich pagesUnrouted [0, 1]
      [operationInFile]).run ((ofTexts [("a.ts", "")]).after [])).1.2 = some .routeNotKey := by
    decide +kernel
  generalize hrun : ((ofTexts [("a.ts", "")]).enrich pagesUnrouted [0, 1]
    [operationInFile]).run ((ofTexts [("a.ts", "")]).after []) = r at heval
  obtain ⟨⟨pages', outcome⟩, st'⟩ := r
  cases outcome with
  | ok report => exact nomatch heval
  | error fault =>
      cases Option.some.inj heval
      obtain ⟨-, -, hfailed⟩ := failed_runs_leave_pages (ofTexts [("a.ts", "")]) []
      obtain ⟨-, hleaves, -⟩ := hfailed _ _ _ _ _ _ hrun
      rw [hleaves hnames]
      exact ⟨hnames, st', rfl⟩

/-- Pages of which the second lists an operation with a number in the place of its name. -/
def pagesUnnamed : Vector Page 2 :=
  #v[⟨.text "/a", .text "a.ts", []⟩,
    ⟨.text "/b", .text "a.ts", [.record (.ofList [("operationName", .int 5)])]⟩]

/-- **A failed run may leave a page changed**: the first of `pagesUnnamed` has got an attribution
when the name on the second one comes up. -/
theorem failed_run_extends_page :
    ∃ pages' st', ((ofTexts [("a.ts", "")]).enrich pagesUnnamed [0, 1] [operationInFile]).run {} =
        ((pages', .error .nameNotText), st') ∧
      (pagesUnnamed.get 0).entries.length = 0 ∧ (pages'.get 0).entries.length = 1 := by
  have heval : (fun r : (Vector Page 2 × Except Fault Report) × State =>
      (faultOf r.1.2, (r.1.1.get 0).entries.length))
        (((ofTexts [("a.ts", "")]).enrich pagesUnnamed [0, 1] [operationInFile]).run {}) =
          (some .nameNotText, 1) := by
    decide +kernel
  generalize ((ofTexts [("a.ts", "")]).enrich pagesUnnamed [0, 1] [operationInFile]).run {} = r
    at heval ⊢
  obtain ⟨⟨pages', outcome⟩, st'⟩ := r
  obtain ⟨hfault, hlength⟩ := Prod.mk.inj heval
  cases outcome with
  | ok report => exact nomatch hfault
  | error fault =>
      cases Option.some.inj hfault
      exact ⟨pages', st', rfl, rfl, hlength⟩

end Engine

end PageReach
