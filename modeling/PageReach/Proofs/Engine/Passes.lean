import Mathlib.Algebra.BigOperators.Fin
import PageReach.Proofs.Attribution
import PageReach.Proofs.Engine.Walk

/-!
# The passes of a run

What a run does depends on the pages and on the repository, but not on what the session remembers.

* **Sessions** (`Steady`, `Steady.bind`): a computation that does the same in all faithful sessions.
  Those that leave the counts alone are `Still`.
* **The first pass** (`Toured`, `tourAll_ok`): it finds a walk for each page with an entry.
* **The second pass** (`Adds`, `attributeAll_ok`): it adds to each page what its walk has met and
  the page does not list, and finds nothing to add if the page comes up again (`Adds.extend`).
-/

namespace PageReach.Engine

variable {e : Engine} {α β γ : Type} {n : Nat}

/-! ## Whatever a session remembers: `Steady` -/

/-- In all `Faithful` sessions the computation `x` has the same outcome and does the same to the
counts, and it leaves the session faithful. -/
def Steady (e : Engine) (x : Work α) : Prop :=
  ∀ counts, ∃ v counts', ∀ s, e.Faithful s → ∃ s',
    x.on ⟨s, counts⟩ = (v, ⟨s', counts'⟩) ∧ e.Faithful s'

theorem Steady.faithful {x : Work α} (h : e.Steady x) {st : State} (hs : e.Faithful st.session) :
    e.Faithful (x.on st).2.session := by
  obtain ⟨v, counts', hx⟩ := h st.reachability
  obtain ⟨s', hrun, hs'⟩ := hx st.session hs
  rw [show st = ⟨st.session, st.reachability⟩ from rfl, hrun]
  exact hs'

/-- What has come out in the session `s` comes out in any other. -/
theorem Steady.again {x : Work α} (h : e.Steady x) {s s₂ : Session} {counts : Table Nat}
    {v : Except Fault α} {st' : State} (hs : e.Faithful s) (hs₂ : e.Faithful s₂)
    (hrun : x.on ⟨s, counts⟩ = (v, st')) :
    ∃ s₂', x.on ⟨s₂, counts⟩ = (v, ⟨s₂', st'.reachability⟩) := by
  obtain ⟨v', counts', hx⟩ := h counts
  obtain ⟨s', hrun', -⟩ := hx s hs
  obtain ⟨s₂', hrun₂, -⟩ := hx s₂ hs₂
  cases hrun.symm.trans hrun'
  exact ⟨s₂', hrun₂⟩

theorem steady_pure (a : α) : e.Steady (pure a) :=
  fun counts => ⟨.ok a, counts, fun s hs => ⟨s, rfl, hs⟩⟩

theorem steady_except (v : Except Fault α) : e.Steady (ExceptT.mk (pure v)) :=
  fun counts => ⟨v, counts, fun s hs => ⟨s, rfl, hs⟩⟩

theorem steady_count (f : Table Nat → Table Nat) :
    e.Steady (modify fun st => { st with reachability := f st.reachability }) :=
  fun counts => ⟨.ok ⟨⟩, f counts, fun s hs => ⟨s, rfl, hs⟩⟩

theorem Steady.bind {x : Work α} {f : α → Work β} (hx : e.Steady x) (hf : ∀ a, e.Steady (f a)) :
    e.Steady (x >>= f) := by
  intro counts
  obtain ⟨v, counts₁, hx⟩ := hx counts
  cases v with
  | error fault =>
      refine ⟨.error fault, counts₁, fun s hs => ?_⟩
      obtain ⟨s₁, hrun, hs₁⟩ := hx s hs
      exact ⟨s₁, by rw [ExceptT.on_bind, hrun], hs₁⟩
  | ok a =>
      obtain ⟨v, counts₂, hf⟩ := hf a counts₁
      refine ⟨v, counts₂, fun s hs => ?_⟩
      obtain ⟨s₁, hrun, hs₁⟩ := hx s hs
      obtain ⟨s₂, hrun₂, hs₂⟩ := hf s₁ hs₁
      exact ⟨s₂, by rw [ExceptT.on_bind, hrun]; exact hrun₂, hs₂⟩

theorem inSession_on (x : Run α) (s : Session) (counts : Table Nat) :
    (inSession x).on ⟨s, counts⟩ = ((x.on s).1, ⟨(x.on s).2, counts⟩) := rfl

theorem steady_inSession {x : Run α} {v : Except Fault α}
    (h : Gives e.repository e.resolver e.answers x v) : e.Steady (inSession x) := by
  refine fun counts => ⟨v, counts, fun s hs => ?_⟩
  obtain ⟨s', hrun, hs'⟩ := h s hs
  exact ⟨s', by rw [inSession_on, hrun], hs'⟩

theorem steady_text (e : Engine) (file : String) :
    e.Steady (inSession (e.repository.text file)) :=
  steady_inSession (@gives_text e.repository e.resolver e.answers file)

/-- The walk that an engine makes in every `Faithful` session. -/
theorem walk_on (e : Engine) (entry : String) (facts : Table (List Fact)) :
    Gives e.repository e.resolver e.answers (e.walk entry facts) (e.answered entry facts).walk :=
  walk_gives e entry facts e.index.files.length

theorem steady_mapM {f : α → Work β} (hf : ∀ a, e.Steady (f a)) (l : List α) :
    e.Steady (l.mapM f) := by
  induction l with
  | nil => exact steady_pure []
  | cons a l ih =>
      rw [List.mapM_cons]
      exact (hf a).bind fun b => ih.bind fun bs => steady_pure (b :: bs)

/-- The computation `x` leaves the counts alone. -/
def Still (x : Work α) : Prop := ∀ st, (x.on st).2.reachability = st.reachability

theorem Still.bind {x : Work α} {f : α → Work β} (hx : Still x) (hf : ∀ a, Still (f a)) :
    Still (x >>= f) := by
  intro st
  have hst := hx st
  rw [ExceptT.on_bind]
  generalize x.on st = r at hst
  obtain ⟨_ | a, st₁⟩ := r
  · exact hst
  · exact (hf a st₁).trans hst

theorem still_mapM {f : α → Work β} (hf : ∀ a, Still (f a)) (l : List α) : Still (l.mapM f) := by
  induction l with
  | nil => exact fun st => rfl
  | cons a l ih =>
      rw [List.mapM_cons]
      exact (hf a).bind fun b => ih.bind fun bs st => rfl

/-! ## The first pass: `tourAll` -/

/-- What `tour` finds for `page`: nothing if there is no entry, and otherwise the entry and the walk
from there. -/
def Toured (e : Engine) (facts : Table (List Fact)) (page : Page) :
    Option (String × Walk) → Prop
  | none => ∃ file?, page.fileText? = .ok file? ∧ file?.bind e.index.locate = none
  | some (entry, w) => ∃ file?, page.fileText? = .ok file? ∧
      file?.bind e.index.locate = some entry ∧ (e.answered entry facts).walk = .ok w

theorem Toured.unique {facts : Table (List Fact)} {page : Page}
    {walked walked' : Option (String × Walk)} (h : e.Toured facts page walked)
    (h' : e.Toured facts page walked') : walked = walked' := by
  rcases walked with _ | ⟨entry, w⟩ <;> rcases walked' with _ | ⟨entry', w'⟩
  · rfl
  · obtain ⟨file?, hfile, hentry⟩ := h
    obtain ⟨file?', hfile', hentry', -⟩ := h'
    cases hfile.symm.trans hfile'
    exact nomatch hentry.symm.trans hentry'
  · obtain ⟨file?, hfile, hentry, -⟩ := h
    obtain ⟨file?', hfile', hentry'⟩ := h'
    cases hfile.symm.trans hfile'
    exact nomatch hentry.symm.trans hentry'
  · obtain ⟨file?, hfile, hentry, hw⟩ := h
    obtain ⟨file?', hfile', hentry', hw'⟩ := h'
    cases hfile.symm.trans hfile'
    cases hentry.symm.trans hentry'
    cases hw.symm.trans hw'
    rfl

section Tours

variable {facts : Table (List Fact)} {page : Page} {told told' : Table WalkSummary}
  {st st' : State}

theorem steady_tour (e : Engine) (facts : Table (List Fact)) (page : Page)
    (told : Table WalkSummary) : e.Steady (e.tour facts page told) := by
  unfold tour
  refine (steady_except _).bind fun file? => ?_
  cases file?.bind e.index.locate with
  | none => exact steady_pure _
  | some entry =>
      refine (steady_inSession (walk_on e entry facts)).bind fun w => ?_
      refine (steady_count (w.visited.foldl countFile ·)).bind fun _ => ?_
      exact (steady_except _).bind fun key => steady_pure _

theorem tour_ok {walked : Option (String × Walk)} (hs : e.Faithful st.session)
    (h : (e.tour facts page told).on st = (.ok (walked, told'), st')) :
    e.Toured facts page walked := by
  unfold tour at h
  obtain ⟨file?, st₁, hread, h⟩ := ExceptT.ok_of_bind h
  obtain ⟨hfile, rfl⟩ := Prod.mk.inj hread
  cases hentry : file?.bind e.index.locate with
  | none =>
      rw [hentry] at h
      cases h
      exact ⟨file?, hfile, hentry⟩
  | some entry =>
      rw [hentry] at h
      obtain ⟨w, st₂, hw, h⟩ := ExceptT.ok_of_bind h
      obtain ⟨_, st₃, -, h⟩ := ExceptT.ok_of_bind h
      obtain ⟨key, st₄, -, h⟩ := ExceptT.ok_of_bind h
      cases h
      obtain ⟨s', hrun, -⟩ := walk_on e entry facts st.session hs
      have houtcome : ((e.walk entry facts).on st.session).1 = .ok w := congrArg Prod.fst hw
      rw [hrun] at houtcome
      exact ⟨file?, hfile, hentry, houtcome⟩

theorem steady_tourAll (e : Engine) (facts : Table (List Fact)) (pages : Vector Page n)
    (order : List (Fin n)) (told : Table WalkSummary) :
    e.Steady (e.tourAll facts pages order told) := by
  induction order generalizing told with
  | nil => exact steady_pure _
  | cons i order ih =>
      unfold tourAll
      refine (steady_tour e facts _ told).bind fun x => ?_
      exact (ih x.2).bind fun y => steady_pure _

theorem tourAll_ok {pages : Vector Page n} {order : List (Fin n)} {tours : List (Tour n)}
    (hs : e.Faithful st.session)
    (h : (e.tourAll facts pages order told).on st = (.ok (tours, told'), st')) :
    tours.map (·.page) = order ∧ ∀ t ∈ tours, e.Toured facts (pages.get t.page) t.walked := by
  induction order generalizing tours told st with
  | nil =>
      cases h
      exact ⟨rfl, nofun⟩
  | cons i order ih =>
      unfold tourAll at h
      obtain ⟨⟨walked, told₁⟩, st₁, htour, h⟩ := ExceptT.ok_of_bind h
      obtain ⟨⟨rest, told₂⟩, st₂, hrest, h⟩ := ExceptT.ok_of_bind h
      cases h
      have hs₁ : e.Faithful st₁.session := by
        have hfaithful := (steady_tour e facts (pages.get i) told).faithful hs
        rwa [htour] at hfaithful
      obtain ⟨hpages, htoured⟩ := ih hs₁ hrest
      refine ⟨congrArg (i :: ·) hpages, ?_⟩
      intro t ht
      rcases List.mem_cons.mp ht with rfl | ht
      · exact tour_ok hs htour
      · exact htoured t ht

/-- Only the `file` and the `route` of a page matter to the first pass. -/
theorem tourAll_congr {pages pages' : Vector Page n}
    (hfile : ∀ i, (pages'.get i).file = (pages.get i).file)
    (hroute : ∀ i, (pages'.get i).route = (pages.get i).route) (order : List (Fin n)) :
    e.tourAll facts pages' order told = e.tourAll facts pages order told := by
  induction order generalizing told with
  | nil => rfl
  | cons i order ih =>
      have htour : e.tour facts (pages'.get i) told = e.tour facts (pages.get i) told := by
        simp only [tour, Page.fileText?, Page.routeKey, hfile, hroute]
      simp only [tourAll, htour, ih]

end Tours

/-! ## The second pass: `attributeAll` -/

section Additions

variable {t : Thresholds} {page : Page} {entry : String} {w : Walk} {st st' : State}

theorem attribution_on (e : Engine) (page : Page) (entry : String) (w : Walk) (t : Thresholds)
    (fact : Fact) (hops : Nat) (st : State) :
    (e.attribution page entry w t fact hops).on st =
      ((inSession (e.repository.text fact.file)) >>= fun source => pure (attributionOf page entry w t
        fact hops ((st.reachability.get? fact.file).getD 0) source) : Work Attribution).on st :=
  rfl

theorem attribution_ok {fact : Fact} {hops : Nat} {a : Attribution}
    (h : (e.attribution page entry w t fact hops).on st = (.ok a, st')) :
    ∃ source, a = attributionOf page entry w t fact hops
      ((st.reachability.get? fact.file).getD 0) source := by
  rw [attribution_on] at h
  obtain ⟨source, st₁, -, h⟩ := ExceptT.ok_of_bind h
  cases h
  exact ⟨source, rfl⟩

theorem steady_attribution (e : Engine) (page : Page) (entry : String) (w : Walk) (t : Thresholds)
    (fact : Fact) (hops : Nat) : e.Steady (e.attribution page entry w t fact hops) := by
  intro counts
  have hsteady := (steady_text e fact.file).bind fun source =>
    steady_pure (attributionOf page entry w t fact hops ((counts.get? fact.file).getD 0) source)
  exact hsteady counts

theorem steady_additions (e : Engine) (t : Thresholds) (page : Page)
    (walked : Option (String × Walk)) : e.Steady (e.additions t page walked) := by
  unfold additions
  rcases walked with _ | ⟨entry, w⟩
  · exact steady_pure []
  · refine (steady_except _).bind fun known => ?_
    refine steady_mapM ?_ _
    rintro ⟨fact, hops⟩
    exact steady_attribution e page entry w t fact hops

theorem still_additions (e : Engine) (t : Thresholds) (page : Page)
    (walked : Option (String × Walk)) : Still (e.additions t page walked) := by
  unfold additions
  rcases walked with _ | ⟨entry, w⟩
  · exact fun st => rfl
  · have hknown : Still (ExceptT.mk (pure (Listed.names page.entries))) := fun st => rfl
    refine hknown.bind fun known => still_mapM ?_ _
    rintro ⟨fact, hops⟩ st
    have htext : Still (inSession (e.repository.text fact.file)) := fun st => rfl
    rw [attribution_on]
    exact htext.bind (fun source st => rfl) st

/-- The attributions are the `newFacts` of the page's walk. -/
def Adds (page : Page) : Option (String × Walk) → List Attribution → Prop
  | none, added => added = []
  | some (_, w), added => ∃ known, Listed.names page.entries = .ok known ∧
      added.map (·.name) = (newFacts w known).map (·.1.name) ∧
      added.map (·.hops) = (newFacts w known).map fun x => (x.2 : Int)

theorem mapM_ok {f : α → Work β} {g : β → γ} {h : α → γ}
    (hf : ∀ a st b st', (f a).on st = (.ok b, st') → g b = h a) {l : List α} {bs : List β}
    (hrun : (l.mapM f).on st = (.ok bs, st')) : bs.map g = l.map h := by
  induction l generalizing bs st with
  | nil =>
      cases hrun
      rfl
  | cons a l ih =>
      rw [List.mapM_cons] at hrun
      obtain ⟨b, st₁, ha, hrun⟩ := ExceptT.ok_of_bind hrun
      obtain ⟨rest, st₂, hl, hrun⟩ := ExceptT.ok_of_bind hrun
      cases hrun
      rw [List.map_cons, List.map_cons, hf a _ _ _ ha, ih hl]

theorem additions_ok {walked : Option (String × Walk)} {added : List Attribution}
    (h : (e.additions t page walked).on st = (.ok added, st')) : Adds page walked added := by
  unfold additions at h
  rcases walked with _ | ⟨entry, w⟩
  · cases h
    rfl
  · obtain ⟨known, st₁, hknown, h⟩ := ExceptT.ok_of_bind h
    refine ⟨known, congrArg Prod.fst hknown, mapM_ok ?_ h, mapM_ok ?_ h⟩
    · rintro ⟨fact, hops⟩ st a st' ha
      obtain ⟨source, rfl⟩ := attribution_ok ha
      rfl
    · rintro ⟨fact, hops⟩ st a st' ha
      obtain ⟨source, rfl⟩ := attribution_ok ha
      rfl

theorem Adds.eq_nil {walked : Option (String × Walk)} {added : List Attribution}
    (hnil : Adds page walked []) (h : Adds page walked added) : added = [] := by
  rcases walked with _ | ⟨entry, w⟩
  · exact h
  · obtain ⟨known, hknown, hnone, -⟩ := hnil
    obtain ⟨known', hknown', hnames, -⟩ := h
    cases hknown.symm.trans hknown'
    rw [← hnone] at hnames
    exact List.map_eq_nil_iff.mp hnames

/-- Nothing is left to be added to a page that has got what `Adds` says, if no name is decorated. -/
theorem Adds.extend {walked : Option (String × Walk)} {added : List Attribution}
    (h : Adds page walked added) (hplain : ∀ a ∈ added, Listed.Undecorated a.name) :
    Adds (extend page added) walked [] := by
  rcases walked with _ | ⟨entry, w⟩
  · rfl
  · obtain ⟨known, hknown, hnames, -⟩ := h
    have hnone : newFacts w (known ++ added.map (·.name)) = [] := by
      rw [List.eq_nil_iff_forall_not_mem]
      intro x hx
      rw [hnames, newFacts, List.mem_filter, Bool.not_eq_true', Bool.eq_false_iff, ne_eq,
        List.contains_iff_mem, List.mem_append, not_or] at hx
      refine hx.2.2 (List.mem_map_of_mem (List.mem_filter.mpr ⟨hx.1, ?_⟩))
      rw [Bool.not_eq_true', Bool.eq_false_iff, ne_eq, List.contains_iff_mem]
      exact hx.2.1
    refine ⟨_, Listed.names_append hknown hplain, ?_, ?_⟩
    · rw [hnone]
      rfl
    · rw [hnone]
      rfl

/-- Where nothing is to be added, `additions` reads nothing. -/
theorem additions_of_nil {walked : Option (String × Walk)} (h : Adds page walked []) (st : State) :
    (e.additions t page walked).on st = (.ok [], st) := by
  unfold additions
  rcases walked with _ | ⟨entry, w⟩
  · rfl
  · obtain ⟨known, hknown, hnames, -⟩ := h
    have hnone : newFacts w known = [] := List.map_eq_nil_iff.mp hnames.symm
    dsimp only
    rw [hknown, ExceptT.on_bind]
    show ((newFacts w known).mapM _ : Work _).on st = _
    rw [hnone]
    rfl

/-- No operation that the walk has in `best` has a decorated name. -/
def Plain (walked : Option (String × Walk)) : Prop :=
  ∀ entry w, walked = some (entry, w) → ∀ x ∈ w.best.values, Listed.Undecorated x.1.name

theorem Adds.undecorated {walked : Option (String × Walk)} {added : List Attribution}
    (h : Adds page walked added) (hplain : Plain walked) :
    ∀ a ∈ added, Listed.Undecorated a.name := by
  intro a ha
  rcases walked with _ | ⟨entry, w⟩
  · rw [show added = [] from h] at ha
    exact absurd ha List.not_mem_nil
  · obtain ⟨known, -, hnames, -⟩ := h
    have hmem : a.name ∈ (newFacts w known).map (·.1.name) := by
      rw [← hnames]
      exact List.mem_map_of_mem ha
    obtain ⟨x, hx, hname⟩ := List.mem_map.mp hmem
    rw [← hname]
    refine hplain entry w rfl x ?_
    exact newFacts_subset w known hx

end Additions

section Attributing

variable {t : Thresholds} {pages pages' : Vector Page n} {tours : List (Tour n)} {st st' : State}

theorem extend_nil (page : Page) : extend page [] = page := by
  rw [extend, List.map_nil, List.append_nil]

theorem get_addTo (pages : Vector Page n) (i k : Fin n) (added : List Attribution) :
    (addTo pages i added).get k = if k = i then extend (pages.get i) added else pages.get k := by
  show (addTo pages i added)[k.val] = _
  rw [addTo, Vector.getElem_set]
  by_cases h : k = i
  · rw [if_pos h, if_pos (congrArg Fin.val h.symm)]
  · rw [if_neg h, if_neg fun heq => h (Fin.ext heq.symm)]
    rfl

theorem addTo_nil (pages : Vector Page n) (i : Fin n) : addTo pages i [] = pages := by
  rw [addTo, extend_nil]
  exact Vector.set_getElem_self i.isLt

theorem attributeAll_cons (e : Engine) (t : Thresholds) (tour : Tour n) (tours : List (Tour n))
    (pages : Vector Page n) (st : State) :
    (e.attributeAll t (tour :: tours) pages).run st =
      match (e.additions t (pages.get tour.page) tour.walked).on st with
      | (.error f, st') => ((pages, .error f), st')
      | (.ok added, st') =>
        let r := (e.attributeAll t tours (addTo pages tour.page added)).run st'
        ((r.1.1, r.1.2.map (added.length + ·)), r.2) := by
  generalize hr : (e.additions t (pages.get tour.page) tour.walked).on st = r
  rw [ExceptT.on] at hr
  rw [attributeAll, StateT.run_bind, hr]
  obtain ⟨_ | _, st'⟩ := r <;> rfl

theorem attributeAll_cons_ok {tour : Tour n} {count : Nat}
    (h : (e.attributeAll t (tour :: tours) pages).run st = ((pages', .ok count), st')) :
    ∃ first rest st₁,
      (e.additions t (pages.get tour.page) tour.walked).on st = (.ok first, st₁) ∧
      (e.attributeAll t tours (addTo pages tour.page first)).run st₁ = ((pages', .ok rest), st') ∧
      count = first.length + rest := by
  rw [attributeAll_cons] at h
  split at h
  · exact nomatch h
  · rename_i first st₁ hfirst
    refine ⟨first, ?_⟩
    generalize hrest : (e.attributeAll t tours _).run st₁ = r at h ⊢
    obtain ⟨⟨pages₁, outcome⟩, st₂⟩ := r
    cases outcome with
    | error fault => exact nomatch h
    | ok rest =>
        cases h
        exact ⟨rest, st₁, hfirst, hrest, rfl⟩

theorem attributeAll_faithful (e : Engine) (t : Thresholds) (tours : List (Tour n))
    (pages : Vector Page n) (hs : e.Faithful st.session) :
    e.Faithful ((e.attributeAll t tours pages).run st).2.session := by
  induction tours generalizing pages st with
  | nil => exact hs
  | cons tour tours ih =>
      have hs₁ := (steady_additions e t (pages.get tour.page) tour.walked).faithful hs
      rw [attributeAll_cons]
      generalize (e.additions t (pages.get tour.page) tour.walked).on st = r at hs₁
      obtain ⟨_ | added, st₁⟩ := r
      · exact hs₁
      · exact ih _ hs₁

theorem attributeAll_counts (e : Engine) (t : Thresholds) (tours : List (Tour n))
    (pages : Vector Page n) (st : State) :
    ((e.attributeAll t tours pages).run st).2.reachability = st.reachability := by
  induction tours generalizing pages st with
  | nil => rfl
  | cons tour tours ih =>
      have hst := still_additions e t (pages.get tour.page) tour.walked st
      rw [attributeAll_cons]
      generalize (e.additions t (pages.get tour.page) tour.walked).on st = r at hst
      obtain ⟨_ | added, st₁⟩ := r
      · exact hst
      · exact (ih _ st₁).trans hst

theorem sum_length_update {added : Fin n → List α} {i : Fin n} (h : added i = []) (l : List α) :
    ∑ k, (Function.update added i l k).length = l.length + ∑ k, (added k).length := by
  have hrest : ∀ k ∈ Finset.univ.erase i,
      (Function.update added i l k).length = (added k).length := by
    intro k hk
    rw [Function.update_of_ne (Finset.ne_of_mem_erase hk)]
  rw [← Finset.add_sum_erase _ _ (Finset.mem_univ i), Finset.sum_congr rfl hrest,
    ← Finset.add_sum_erase _ (fun k => (added k).length) (Finset.mem_univ i),
    Function.update_self, h, List.length_nil, Nat.zero_add]

/-- **What `attributeAll` adds.** Each page gets the new facts of its walk, once. By induction over
`tours`: a page that comes up again has nothing left to be added, by `Adds.extend`. -/
theorem attributeAll_ok {count : Nat}
    (hsame : ∀ x ∈ tours, ∀ y ∈ tours, x.page = y.page → x.walked = y.walked)
    (hplain : ∀ x ∈ tours, Plain x.walked)
    (h : (e.attributeAll t tours pages).run st = ((pages', .ok count), st')) :
    ∃ added : Fin n → List Attribution,
      (∀ i, pages'.get i = extend (pages.get i) (added i)) ∧
      count = ∑ i, (added i).length ∧
      (∀ i, i ∉ tours.map (·.page) → added i = []) ∧
      ∀ x ∈ tours, Adds (pages.get x.page) x.walked (added x.page) := by
  induction tours generalizing pages st count with
  | nil =>
      cases h
      exact ⟨fun _ => [], fun i => (extend_nil _).symm, by simp, fun _ _ => rfl, nofun⟩
  | cons tour tours ih =>
      obtain ⟨first, rest, st₁, hr, hrest, rfl⟩ := attributeAll_cons_ok h
      have hfirst : Adds (pages.get tour.page) tour.walked first := additions_ok hr
      obtain ⟨added, hpages, hcount, hothers, hadds⟩ := ih
        (fun x hx y hy => hsame x (List.mem_cons_of_mem _ hx) y (List.mem_cons_of_mem _ hy))
        (fun x hx => hplain x (List.mem_cons_of_mem _ hx)) hrest
      -- the page may come up again, but then nothing is left to be added
      have hnil : added tour.page = [] := by
        by_cases hmem : tour.page ∈ tours.map (·.page)
        · obtain ⟨x, hx, hpage⟩ := List.mem_map.mp hmem
          have hagain := hadds x hx
          rw [hpage, get_addTo, if_pos rfl,
            hsame x (List.mem_cons_of_mem _ hx) tour List.mem_cons_self hpage] at hagain
          have hundecorated := hfirst.undecorated (hplain tour List.mem_cons_self)
          exact (hfirst.extend hundecorated).eq_nil hagain
        · exact hothers _ hmem
      refine ⟨Function.update added tour.page first, ?_, ?_, ?_, ?_⟩
      · intro i
        rw [hpages i, get_addTo]
        by_cases hi : i = tour.page
        · rw [if_pos hi, hi, hnil, extend_nil, Function.update_self]
        · rw [if_neg hi, Function.update_of_ne hi]
      · rw [sum_length_update hnil, hcount]
      · intro i hi
        rw [List.map_cons, List.mem_cons, not_or] at hi
        rw [Function.update_of_ne hi.1]
        exact hothers i hi.2
      · intro x hx
        by_cases hpage : x.page = tour.page
        · rw [hpage, hsame x hx tour List.mem_cons_self hpage, Function.update_self]
          exact hfirst
        · rcases List.mem_cons.mp hx with rfl | hx
          · exact absurd rfl hpage
          · have hadd := hadds x hx
            rw [get_addTo, if_neg hpage] at hadd
            rw [Function.update_of_ne hpage]
            exact hadd

/-- Pages that have got their attributions are left as they are. -/
theorem attributeAll_of_nil (h : ∀ x ∈ tours, Adds (pages.get x.page) x.walked [])
    (st : State) : (e.attributeAll t tours pages).run st = ((pages, .ok 0), st) := by
  induction tours with
  | nil => rfl
  | cons tour tours ih =>
      rw [attributeAll_cons, additions_of_nil (h tour List.mem_cons_self)]
      dsimp only
      rw [addTo_nil, ih fun x hx => h x (List.mem_cons_of_mem _ hx)]
      rfl

end Attributing

end PageReach.Engine
