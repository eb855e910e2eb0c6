import PageReach.Proofs.Engine.Enrich
import PageReach.Proofs.Walk.Foremost

/-!
# Direct attributions

What a run adds to a page tells, for each operation, of the foremost file with a fact about it. No
file but the entry is no hop away. So the operations of the entry file are attributed directly, and
nothing else is.

* **Attributions** (`Credits`, `additions_credit`, `attributeAll_credits`): what is added to a page
  tells of what its walk has kept.
* **The entry file** (`Toured.hops_eq_zero_iff`, `Toured.kept_of_entry`): what is kept is no hop
  away exactly if it comes from there.
* **Runs** (`foremost_kept`): both, for every walk and every run.
-/

namespace PageReach.Engine

variable {e : Engine} {n : Nat} {α β : Type}

/-! ## What attributions tell: `Credits` -/

theorem classify_eq_direct_iff {hops reach common few : Int} :
    (classify hops reach common few).1 = .direct ↔ hops = 0 := by
  unfold classify
  split
  · simp [*]
  · split
    · simp [*]
    · split <;> simp [*]

/-- The attribution `a` tells of the fact in `x`, with the hops in `x`. -/
structure Credits (x : Fact × Nat) (a : Attribution) : Prop where
  name : a.name = x.1.name
  file : a.file = x.1.file
  hops : a.hops = x.2
  direct : a.classification = .direct ↔ x.2 = 0
  certain : x.2 = 0 → a.confidence = .certain

theorem credits_attributionOf (page : Page) (entry : String) (w : Walk) (t : Thresholds)
    (fact : Fact) (hops reach : Nat) (source : Option String) :
    Credits (fact, hops) (attributionOf page entry w t fact hops reach source) where
  name := rfl
  file := rfl
  hops := rfl
  direct := by
    show (classify hops reach t.common t.few).1 = .direct ↔ hops = 0
    rw [classify_eq_direct_iff]
    omega
  certain h := by
    show (classify hops reach t.common t.few).2 = .certain
    simp only at h
    simp [classify, h]

theorem mapM_related {f : α → Work β} {R : α → β → Prop} {st st' : State}
    (hf : ∀ a st b st', (f a).on st = (.ok b, st') → R a b) {l : List α} {bs : List β}
    (hrun : (l.mapM f).on st = (.ok bs, st')) :
    (∀ a ∈ l, ∃ b ∈ bs, R a b) ∧ ∀ b ∈ bs, ∃ a ∈ l, R a b := by
  induction l generalizing bs st with
  | nil =>
      cases hrun
      simp
  | cons a l ih =>
      rw [List.mapM_cons] at hrun
      obtain ⟨b, st₁, ha, hrun⟩ := ExceptT.ok_of_bind hrun
      obtain ⟨rest, st₂, hl, hrun⟩ := ExceptT.ok_of_bind hrun
      cases hrun
      have hab := hf a _ _ _ ha
      have hrest := ih hl
      grind

theorem additions_credit {t : Thresholds} {page : Page} {entry : String} {w : Walk} {st st' : State}
    {added : List Attribution}
    (h : (e.additions t page (some (entry, w))).on st = (.ok added, st')) :
    ∃ known, Listed.names page.entries = .ok known ∧
      (∀ x ∈ newFacts w known, ∃ a ∈ added, Credits x a) ∧
      ∀ a ∈ added, ∃ x ∈ newFacts w known, Credits x a := by
  obtain ⟨known, st₁, hknown, h⟩ := ExceptT.ok_of_bind h
  refine ⟨known, congrArg Prod.fst hknown, mapM_related ?_ h⟩
  rintro ⟨fact, hops⟩ st a st' ha
  obtain ⟨source, rfl⟩ := attribution_ok ha
  exact credits_attributionOf _ _ _ _ _ _ _ _

/-- A page gets what its walk has kept in `best`. When it first comes up, it gets all of that which
it does not list. -/
theorem attributeAll_credits {t : Thresholds} {pages pages' : Vector Page n}
    {tours : List (Tour n)} {st st' : State} {count : Nat} {i : Fin n} {entry : String} {w : Walk}
    (hwalked : ∀ x ∈ tours, x.page = i → x.walked = some (entry, w))
    (h : (e.attributeAll t tours pages).run st = ((pages', .ok count), st')) :
    ∃ added, pages'.get i = extend (pages.get i) added ∧
      (∀ a ∈ added, ∃ x ∈ w.best.values, Credits x a) ∧
      (i ∈ tours.map (·.page) → ∃ known, Listed.names (pages.get i).entries = .ok known ∧
        ∀ x ∈ newFacts w known, ∃ a ∈ added, Credits x a) := by
  induction tours generalizing pages st count with
  | nil =>
      cases h
      exact ⟨[], (extend_nil _).symm, by simp, by simp⟩
  | cons tour tours ih =>
      obtain ⟨first, rest, st₁, hfirst, hrest, -⟩ := attributeAll_cons_ok h
      obtain ⟨added, hget, hadded, hall⟩ :=
        ih (fun x hx => hwalked x (List.mem_cons_of_mem _ hx)) hrest
      rw [get_addTo] at hget hall
      by_cases hi : tour.page = i
      · subst hi
        rw [hwalked tour List.mem_cons_self rfl] at hfirst
        obtain ⟨known, hknown, hnew, hcredits⟩ := additions_credit hfirst
        refine ⟨first ++ added, ?_, ?_, fun _ => ⟨known, hknown, ?_⟩⟩
        · simp [hget, extend]
        · intro a ha
          rcases List.mem_append.mp ha with ha | ha
          · obtain ⟨x, hx, hxa⟩ := hcredits a ha
            exact ⟨x, newFacts_subset w known hx, hxa⟩
          · exact hadded a ha
        · intro x hx
          obtain ⟨a, ha, hxa⟩ := hnew x hx
          exact ⟨a, List.mem_append_left _ ha, hxa⟩
      · have hne : i ≠ tour.page := fun h => hi h.symm
        rw [if_neg hne] at hget hall
        refine ⟨added, hget, hadded, fun hmem => hall ?_⟩
        simpa [hne] using hmem

/-! ## The entry file -/

section Toured

variable {sources : List OperationSource} {page : Page} {entry : String} {w : Walk}
  {x : Fact × Nat}

theorem Toured.exists_walk {facts : Table (List Fact)} {walked : Option (String × Walk)}
    (h : e.Toured facts page walked) {file? : Option String} (hfile : page.fileText? = .ok file?)
    (hentry : file?.bind e.index.locate = some entry) : ∃ w, walked = some (entry, w) := by
  rcases walked with _ | ⟨entry', w⟩
  · obtain ⟨file?', hfile', hnone⟩ := h
    cases hfile.symm.trans hfile'
    simp [hentry] at hnone
  · obtain ⟨file?', hfile', hentry', -⟩ := h
    cases hfile.symm.trans hfile'
    cases hentry.symm.trans hentry'
    exact ⟨w, rfl⟩

theorem file_of_foremost {name f : String}
    (h : (e.plain entry (e.factsByFile sources)).Foremost w name f x) : x.1.file = f :=
  (mem_factsByFile.mp (List.mem_of_find?_eq_some h.fact)).2.1

/-- What is kept in `best` is no hop away exactly if it comes from the entry file. -/
theorem Toured.hops_eq_zero_iff (h : e.Toured (e.factsByFile sources) page (some (entry, w)))
    {name : String} (hx : w.best.get? name = some x) : x.2 = 0 ↔ x.1.file = entry := by
  obtain ⟨f, hforemost⟩ := h.ended.foremost hx
  obtain ⟨-, hhop⟩ := h.ended.visitsAt_iff.mp hforemost.visits
  rw [file_of_foremost hforemost]
  constructor
  · intro hzero
    rw [hzero] at hhop
    exact h.ended.linked.hops_eq_zero_iff.mp hhop
  · rintro rfl
    have hstart := h.ended.linked.start
    rw [show (e.plain f (e.factsByFile sources)).entry = f from rfl, hhop] at hstart
    exact Option.some.inj hstart

/-- A fact in the `entry` file is not passed over. -/
theorem Toured.kept_of_entry (h : e.Toured (e.factsByFile sources) page (some (entry, w)))
    (hlimit : 0 < e.limit) {source : OperationSource} (hsource : source ∈ sources) {fact : Fact}
    (hfact : fact ∈ source.facts) (hfile : fact.file = entry) :
    ∃ x, w.best.get? fact.name = some x ∧ x.2 = 0 := by
  have hvisited : entry ∈ w.visited := h.ended.entry_visited hlimit
  have hmem : fact ∈ (e.plain entry (e.factsByFile sources)).factsOf entry :=
    mem_factsByFile.mpr ⟨⟨source, hsource, hfact⟩, hfile, h.indexed hvisited⟩
  have hmentions : (e.plain entry (e.factsByFile sources)).Mentions fact.name entry :=
    ⟨fact, hmem, rfl⟩
  obtain ⟨x, hx⟩ := h.ended.best_isSome_iff.mpr ⟨entry, hvisited, hmentions⟩
  obtain ⟨f, hforemost⟩ := h.ended.foremost hx
  have hstart : (e.plain entry (e.factsByFile sources)).VisitsAt w entry 0 :=
    h.ended.visitsAt_iff.mpr ⟨hvisited, h.ended.linked.start⟩
  have hle := hforemost.least entry 0 hstart hmentions
  exact ⟨x, hx, Nat.le_zero.mp hle⟩

end Toured

/-- **What is kept about an operation comes from its foremost file, and only what comes from the entry
file is direct.** A walk knows an operation exactly if a visited file has a fact about it. It keeps the
first fact of the nearest such file, and of several nearest files, of the one visited first. So a run
attributes the operations of a page's entry file directly, if they are not listed for the page, and
no other ones. -/
theorem foremost_kept (e : Engine) (hlimit : 0 < e.limit) :
    (∀ entry facts s s' w, e.Faithful s → (e.walk entry facts).on s = (.ok w, s') →
      ∀ name,
        ((∃ x, w.best.get? name = some x) ↔
          ∃ f ∈ w.visited, (e.plain entry facts).Mentions name f) ∧
        ∀ x, w.best.get? name = some x → ∃ f, (e.plain entry facts).Foremost w name f x) ∧
    ∀ (n : Nat) (pages pages' : Vector Page n) order sources st st' report,
      e.Faithful st.session →
      (e.enrich pages order sources).run st = ((pages', .ok report), st') →
      ∀ i ∈ order, ∀ file? entry, (pages.get i).fileText? = .ok file? →
        file?.bind e.index.locate = some entry →
        ∃ known added, Listed.names (pages.get i).entries = .ok known ∧
          pages'.get i = extend (pages.get i) added ∧
          (∀ source ∈ sources, ∀ fact ∈ source.facts, fact.file = entry → fact.name ∉ known →
            ∃ a ∈ added, a.name = fact.name ∧ a.file = entry ∧ a.hops = 0 ∧
              a.classification = .direct ∧ a.confidence = .certain) ∧
          ∀ a ∈ added, a.classification = .direct ↔ a.file = entry := by
  constructor
  · intro entry facts s s' w hs hrun name
    obtain ⟨hended, -⟩ := ended_of_walk hs hrun
    exact ⟨hended.best_isSome_iff, fun x hx => hended.foremost hx⟩
  · intro n pages pages' order sources st st' report hs hrun i hi file? entry hfile hentry
    obtain ⟨tours, walks, st₁, hfirst, -, hsecond, -⟩ := enrich_ok hrun
    have hs₀ : e.Faithful (State.mk st.session .empty).session := hs
    obtain ⟨hpages, htoured⟩ := tourAll_ok hs₀ hfirst
    rw [← hpages] at hi
    obtain ⟨tour, htour, rfl⟩ := List.mem_map.mp hi
    obtain ⟨w, hw⟩ := (htoured tour htour).exists_walk hfile hentry
    have htoured' := htoured tour htour
    rw [hw] at htoured'
    -- a page that comes up several times has the same walk each time
    have hsame : ∀ x ∈ tours, x.page = tour.page → x.walked = some (entry, w) := by
      intro x hx hpage
      have hx' := htoured x hx
      rw [hpage] at hx'
      exact hx'.unique htoured'
    obtain ⟨added, hget, hadded, hall⟩ := attributeAll_credits hsame hsecond
    obtain ⟨known, hknown, hnew⟩ := hall hi
    refine ⟨known, added, hknown, hget, ?_, ?_⟩
    · intro source hsource fact hfact hfile hnot
      obtain ⟨x, hx, hzero⟩ := htoured'.kept_of_entry hlimit hsource hfact hfile
      have hname : x.1.name = fact.name := (htoured'.nearest.entry _ _ hx).2
      obtain ⟨a, ha, hcredits⟩ := hnew x ((mem_newFacts htoured'.nearest).mpr
        (by simpa [hname] using ⟨hx, hnot⟩))
      refine ⟨a, ha, ?_, ?_, ?_, ?_, ?_⟩
      · rw [hcredits.name, hname]
      · rw [hcredits.file]
        exact (htoured'.hops_eq_zero_iff hx).mp hzero
      · simp [hcredits.hops, hzero]
      · exact hcredits.direct.mpr hzero
      · exact hcredits.certain hzero
    · intro a ha
      obtain ⟨x, hx, hcredits⟩ := hadded a ha
      rw [hcredits.direct, hcredits.file]
      exact htoured'.hops_eq_zero_iff (htoured'.nearest.get?_of_mem_values hx)

/-- An operation that is defined in a file which the page at `a.ts` reaches, and used in the entry. -/
def operationInEntry : OperationSource := ⟨"GetX", .query, some "c.ts", ["a.ts"]⟩

/-- The definition comes first in the list of facts and is two hops away. The use is kept. -/
theorem foremost_kept_of_circle :
    let e := ofTexts barrelInCircle
    0 < e.limit ∧
    (∃ w s' x, (e.walk "a.ts" (e.factsByFile [operationInEntry])).on {} = (.ok w, s') ∧
      w.visited = ["a.ts", "b.ts", "c.ts"] ∧ x.2 = 0 ∧
      (e.plain "a.ts" (e.factsByFile [operationInEntry])).Foremost w "GetX" "a.ts" x) ∧
    ∃ pages' report st' added,
      (e.enrich pagesInCircle [0, 0] [operationInEntry]).run {} = ((pages', .ok report), st') ∧
      pages'.get 0 = extend (pagesInCircle.get 0) added ∧
      ∃ a ∈ added, a.name = "GetX" ∧ a.file = "a.ts" ∧ a.classification = .direct := by
  intro e
  have hlimit : 0 < e.limit := by decide
  obtain ⟨hwalks, hruns⟩ := foremost_kept e hlimit
  refine ⟨hlimit, ?_, ?_⟩
  · have heval : ((e.walk "a.ts" (e.factsByFile [operationInEntry])).on {}).1.toOption.map
        (fun w => (w.visited, (w.best.get? "GetX").map fun x => (x.1.file, x.2))) =
        some (["a.ts", "b.ts", "c.ts"], some ("a.ts", 0)) := by
      decide +kernel
    obtain ⟨w, s', hrun, hw⟩ := ExceptT.exists_on heval
    simp only [Prod.mk.injEq, Option.map_eq_some_iff] at hw
    obtain ⟨hvisited, x, hx, hfile, hzero⟩ := hw
    obtain ⟨f, hforemost⟩ := (hwalks _ _ _ s' w (faithful_new e) hrun "GetX").2 x hx
    obtain rfl : f = "a.ts" := (file_of_foremost hforemost).symm.trans hfile
    exact ⟨w, s', x, hrun, hvisited, hzero, hforemost⟩
  · have heval : (((e.enrich pagesInCircle [0, 0] [operationInEntry]).run {}).1.2.toOption.map
        (·.attributionsAdded)) = some 1 := by
      decide +kernel
    generalize hrun : (e.enrich pagesInCircle [0, 0] [operationInEntry]).run {} = r at heval
    obtain ⟨⟨pages', outcome⟩, st'⟩ := r
    cases outcome with
    | error fault => simp [Except.toOption] at heval
    | ok report =>
        obtain ⟨known, added, hknown, hget, hdirect, -⟩ :=
          hruns 2 pagesInCircle pages' [0, 0] [operationInEntry] {} st' report (faithful_new e) hrun
            0 (by simp) (some "a.ts") "a.ts" rfl (by decide +kernel)
        obtain rfl : known = [] := by cases hknown; rfl
        obtain ⟨a, ha, hname, hfile, -, hclass, -⟩ :=
          hdirect operationInEntry (by simp) ⟨"GetX", .query, "a.ts"⟩ (by decide) rfl (by simp)
        exact ⟨pages', report, st', added, rfl, hget, a, ha, hname, hfile, hclass⟩

end PageReach.Engine
