import PageReach.Proofs.Engine.Enrich

/-!
# What the steps of a run come to

The steps of a run read files in a session and look at the counts. In a faithful session nothing
else matters (`view`), so each step has a plain outcome.

* **Tours** (`tourOf`, `tourAll_comes_back`): the tour of a page depends on the page alone.
* **Additions** (`additionsOf`, `additions_on`): what is added to the page depends on its walk and
  on the counts besides.
* **Whatever comes out** (`attributeAll_keeps`, `enrich_keeps`): a run only adds to pages, even if
  it fails.
* **Runs** (`Comes.enrich`, `comes_of_enrich`): a run comes back exactly if all of its steps do.
-/

namespace PageReach.Engine

variable {e : Engine} {n : Nat} {α β : Type}

/-- What matters of the state `st`: what its session answers, and the counts. -/
def view (e : Engine) (st : State) : Answers × Table Nat :=
  (e.repository.answers e.resolver st.session, st.reachability)

theorem view_of_faithful {s : Session} (hs : e.Faithful s) (counts : Table Nat) :
    e.view ⟨s, counts⟩ = (e.answers, counts) :=
  congrArg (·, counts) hs

theorem tells_inSession {x : Run α} {v : Except Fault α} {counts : Table Nat}
    (h : Gives e.repository e.resolver e.answers x v) :
    Tells e.view (e.answers, counts) (inSession x) v := by
  rintro ⟨s, counts'⟩ hst
  obtain ⟨hs, rfl⟩ := Prod.mk.inj hst
  obtain ⟨s', hrun, hs'⟩ := h s hs
  exact ⟨⟨s', counts'⟩, by rw [inSession_on, hrun], view_of_faithful hs' counts'⟩

/-! ## Tours: `tourOf` -/

/-- The tour of `page`: its entry and the walk from there, if there is an entry. -/
def tourOf (e : Engine) (facts : Table (List Fact)) (page : Page) :
    Except Fault (Option (String × Walk)) := do
  match (← page.fileText?).bind e.index.locate with
  | none => return none
  | some entry =>
    let w ← (e.answered entry facts).walk
    let _ ← page.routeKey
    return some (entry, w)

/-- The files that are visited on a tour. -/
def visitedOn (walked : Option (String × Walk)) : List String :=
  (walked.map (·.2.visited)).getD []

section Tours

variable {facts : Table (List Fact)} {page : Page} {told told' : Table WalkSummary}
  {walked : Option (String × Walk)} {s : Session} {st st' : State}

theorem tourOf_eq_ok : e.tourOf facts page = .ok walked ↔
    e.Toured facts page walked ∧ (walked ≠ none → ∃ key, page.routeKey = .ok key) := by
  unfold tourOf
  constructor
  · intro h
    obtain ⟨file?, hfile, h⟩ := exists_ok_of_bind h
    cases hentry : file?.bind e.index.locate with
    | none =>
        rw [hentry] at h
        cases h
        exact ⟨⟨file?, hfile, hentry⟩, fun hne => absurd rfl hne⟩
    | some entry =>
        rw [hentry] at h
        obtain ⟨w, hw, h⟩ := exists_ok_of_bind h
        obtain ⟨key, hkey, h⟩ := exists_ok_of_bind h
        cases h
        exact ⟨⟨file?, hfile, hentry, hw⟩, fun _ => ⟨key, hkey⟩⟩
  · rintro ⟨htoured, hkey⟩
    rcases walked with _ | ⟨entry, w⟩
    · obtain ⟨file?, hfile, hentry⟩ := htoured
      rw [hfile]
      show (match file?.bind e.index.locate with | none => _ | some entry => _) = _
      rw [hentry]
      rfl
    · obtain ⟨file?, hfile, hentry, hw⟩ := htoured
      obtain ⟨key, hkey⟩ := hkey nofun
      rw [hfile]
      show (match file?.bind e.index.locate with | none => _ | some entry => _) = _
      rw [hentry]
      dsimp only
      rw [hw, hkey]
      rfl

/-- `tour` comes back if `tourOf` does, and then counts the files that it has visited. -/
theorem tour_comes_back (h : e.tourOf facts page = .ok walked) (hs : e.Faithful s)
    (told : Table WalkSummary) (counts : Table Nat) :
    ∃ told' s', (e.tour facts page told).on ⟨s, counts⟩ =
      (.ok (walked, told'), ⟨s', (visitedOn walked).foldl countFile counts⟩) ∧ e.Faithful s' := by
  obtain ⟨htoured, hkey⟩ := tourOf_eq_ok.mp h
  unfold tour
  rcases walked with _ | ⟨entry, w⟩
  · obtain ⟨file?, hfile, hentry⟩ := htoured
    refine ⟨told, s, ?_, hs⟩
    rw [hfile, ExceptT.on_bind, ExceptT.on_except]
    dsimp only
    rw [hentry]
    rfl
  · obtain ⟨file?, hfile, hentry, hw⟩ := htoured
    obtain ⟨key, hkey⟩ := hkey nofun
    obtain ⟨s', hrun, hs'⟩ := walk_on e entry facts s hs
    refine ⟨told.insert key ⟨w.visited.length, w.truncated⟩, s', ?_, hs'⟩
    rw [hfile, ExceptT.on_bind, ExceptT.on_except]
    dsimp only
    rw [hentry]
    dsimp only
    rw [ExceptT.on_bind, inSession_on, hrun, hw]
    dsimp only
    rw [ExceptT.on_bind, ExceptT.on_modify, hkey]
    rfl

theorem tourOf_of_tour (hs : e.Faithful st.session)
    (h : (e.tour facts page told).on st = (.ok (walked, told'), st')) :
    e.tourOf facts page = .ok walked := by
  refine tourOf_eq_ok.mpr ⟨tour_ok hs h, ?_⟩
  unfold tour at h
  obtain ⟨file?, st₁, hread, h⟩ := ExceptT.ok_of_bind h
  cases hentry : file?.bind e.index.locate with
  | none =>
      rw [hentry] at h
      cases h
      exact fun hne => absurd rfl hne
  | some entry =>
      rw [hentry] at h
      obtain ⟨w, st₂, -, h⟩ := ExceptT.ok_of_bind h
      obtain ⟨_, st₃, -, h⟩ := ExceptT.ok_of_bind h
      obtain ⟨key, st₄, hkey, -⟩ := ExceptT.ok_of_bind h
      exact fun _ => ⟨key, congrArg Prod.fst hkey⟩

/-- `tourAll` comes back if all plain tours do, and then has counted all visits. -/
theorem tourAll_comes_back {pages : Vector Page n} {order : List (Fin n)}
    {walked : Fin n → Option (String × Walk)}
    (h : ∀ i ∈ order, e.tourOf facts (pages.get i) = .ok (walked i)) (hs : e.Faithful s)
    (told : Table WalkSummary) (counts : Table Nat) :
    ∃ told' s', (e.tourAll facts pages order told).on ⟨s, counts⟩ =
      (.ok (order.map fun i => ⟨i, walked i⟩, told'),
        ⟨s', (order.flatMap fun i => visitedOn (walked i)).foldl countFile counts⟩) ∧
      e.Faithful s' := by
  induction order generalizing s told counts with
  | nil => exact ⟨told, s, rfl, hs⟩
  | cons i order ih =>
      obtain ⟨told₁, s₁, hfirst, hs₁⟩ :=
        tour_comes_back (h i List.mem_cons_self) hs told counts
      obtain ⟨told₂, s₂, hrest, hs₂⟩ := ih (fun k hk => h k (List.mem_cons_of_mem _ hk)) hs₁ told₁
        ((visitedOn (walked i)).foldl countFile counts)
      refine ⟨told₂, s₂, ?_, hs₂⟩
      rw [tourAll, ExceptT.on_bind, hfirst]
      dsimp only
      rw [ExceptT.on_bind, hrest, List.flatMap_cons, List.foldl_append]
      rfl

theorem tourOf_of_tourAll {pages : Vector Page n} {order : List (Fin n)} {tours : List (Tour n)}
    (hs : e.Faithful st.session)
    (h : (e.tourAll facts pages order told).on st = (.ok (tours, told'), st')) :
    ∀ i ∈ order, ∃ walked, e.tourOf facts (pages.get i) = .ok walked := by
  induction order generalizing st told told' tours st' with
  | nil => nofun
  | cons i order ih =>
      rw [tourAll] at h
      obtain ⟨⟨walked, told₁⟩, st₁, hfirst, h⟩ := ExceptT.ok_of_bind h
      obtain ⟨⟨rest, told₂⟩, st₂, hrest, -⟩ := ExceptT.ok_of_bind h
      have hs₁ : e.Faithful st₁.session := by
        have hfaithful := (steady_tour e facts (pages.get i) told).faithful hs
        rwa [hfirst] at hfaithful
      intro k hk
      rcases List.mem_cons.mp hk with rfl | hk
      · exact ⟨walked, tourOf_of_tour hs hfirst⟩
      · exact ih hs₁ hrest k hk

end Tours

/-! ## Additions: `additionsOf` -/

/-- The attributions to be added to `page`, given the `counts`. -/
def additionsOf (e : Engine) (t : Thresholds) (counts : Table Nat) (page : Page) :
    Option (String × Walk) → Except Fault (List Attribution)
  | none => .ok []
  | some (entry, w) => do
    let known ← Listed.names page.entries
    (newFacts w known).mapM fun x => do
      let source ← e.answers.text x.1.file
      return attributionOf page entry w t x.1 x.2 ((counts.get? x.1.file).getD 0) source

section Additions

variable {t : Thresholds} {counts counts' : Table Nat} {page : Page} {entry : String} {w : Walk}
  {walked : Option (String × Walk)} {added : List Attribution}

@[simp] theorem attributionOf_file (page : Page) (entry : String) (w : Walk) (t : Thresholds)
    (fact : Fact) (hops reach : Nat) (source : Option String) :
    (attributionOf page entry w t fact hops reach source).file = fact.file := rfl

@[simp] theorem attributionOf_reach (page : Page) (entry : String) (w : Walk) (t : Thresholds)
    (fact : Fact) (hops reach : Nat) (source : Option String) :
    (attributionOf page entry w t fact hops reach source).reach = reach := rfl

theorem tells_attribution (page : Page) (entry : String) (w : Walk) (t : Thresholds) (fact : Fact)
    (hops : Nat) :
    Tells e.view (e.answers, counts) (e.attribution page entry w t fact hops) (do
      let source ← e.answers.text fact.file
      return attributionOf page entry w t fact hops ((counts.get? fact.file).getD 0) source) := by
  intro st hst
  have hcounts : st.reachability = counts := congrArg Prod.snd hst
  have htext : Gives e.repository e.resolver e.answers (e.repository.text fact.file)
      (e.answers.text fact.file) := gives_text fact.file
  rw [attribution_on, hcounts]
  exact Tells.bind (tells_inSession htext) (fun source _ => Tells.pure _) st hst

theorem tells_additions (e : Engine) (t : Thresholds) (counts : Table Nat) (page : Page)
    (walked : Option (String × Walk)) :
    Tells e.view (e.answers, counts) (e.additions t page walked)
      (e.additionsOf t counts page walked) := by
  rcases walked with _ | ⟨entry, w⟩
  · exact Tells.pure []
  · refine Tells.bind (Tells.lift _) fun known _ => Tells.mapM ?_ _
    rintro ⟨fact, hops⟩
    exact tells_attribution page entry w t fact hops

theorem additions_on {s : Session} (hs : e.Faithful s) (t : Thresholds) (counts : Table Nat)
    (page : Page) (walked : Option (String × Walk)) :
    ∃ s', (e.additions t page walked).on ⟨s, counts⟩ =
      (e.additionsOf t counts page walked, ⟨s', counts⟩) ∧ e.Faithful s' := by
  obtain ⟨⟨s', counts'⟩, hrun, hview⟩ :=
    tells_additions e t counts page walked ⟨s, counts⟩ (view_of_faithful hs counts)
  obtain ⟨hs', rfl⟩ := Prod.mk.inj hview
  exact ⟨s', hrun, hs'⟩

/-- Only the numbers in the `counts` matter, not their order. -/
theorem additionsOf_congr (h : ∀ f, counts'.get? f = counts.get? f) :
    e.additionsOf t counts' page walked = e.additionsOf t counts page walked := by
  rcases walked with _ | ⟨entry, w⟩
  · rfl
  · simp only [additionsOf, h]

theorem exists_of_mem_mapM {f : α → Except Fault β} {l : List α} {bs : List β}
    (h : l.mapM f = .ok bs) {b : β} (hb : b ∈ bs) : ∃ a ∈ l, f a = .ok b := by
  induction l generalizing bs with
  | nil =>
      cases h
      exact absurd hb List.not_mem_nil
  | cons a l ih =>
      rw [List.mapM_cons] at h
      obtain ⟨b', ha, h⟩ := exists_ok_of_bind h
      obtain ⟨rest, hl, h⟩ := exists_ok_of_bind h
      cases h
      rcases List.mem_cons.mp hb with rfl | hb
      · exact ⟨a, List.mem_cons_self, ha⟩
      · obtain ⟨a', ha', hb'⟩ := ih hl hb
        exact ⟨a', List.mem_cons_of_mem _ ha', hb'⟩

/-- What `additionsOf` adds to a page is about the `best` facts of its walk. -/
theorem mem_additionsOf (h : e.additionsOf t counts page walked = .ok added) {a : Attribution}
    (ha : a ∈ added) : ∃ entry w, walked = some (entry, w) ∧ ∃ x ∈ w.best.values, ∃ source,
      a = attributionOf page entry w t x.1 x.2 ((counts.get? x.1.file).getD 0) source := by
  rcases walked with _ | ⟨entry, w⟩
  · cases h
    exact absurd ha List.not_mem_nil
  · obtain ⟨known, -, h⟩ := exists_ok_of_bind h
    obtain ⟨x, hx, hattribution⟩ := exists_of_mem_mapM h ha
    obtain ⟨source, -, hsource⟩ := exists_ok_of_bind hattribution
    refine ⟨entry, w, rfl, x, ?_, source, (Except.ok.inj hsource).symm⟩
    exact newFacts_subset w known hx

end Additions

/-- The `best` facts of a walk are about files that it has `visited`. -/
theorem Toured.mem_visited {sources : List OperationSource} {page : Page} {entry : String}
    {w : Walk} (h : e.Toured (e.factsByFile sources) page (some (entry, w))) {x : Fact × Nat}
    (hx : x ∈ w.best.values) : x.1.file ∈ w.visited := by
  obtain ⟨hmet, -⟩ := h.nearest.entry _ _ (h.nearest.get?_of_mem_values hx)
  obtain ⟨f, hf, hat⟩ := List.mem_flatMap.mp hmet
  obtain ⟨fact, hfact, rfl⟩ := List.mem_map.mp hat
  obtain ⟨-, rfl, -⟩ := mem_factsByFile.mp hfact
  exact hf

/-! ## Whatever comes out: `Keeps` -/

theorem extend_extend (page : Page) (l l' : List Attribution) :
    extend (extend page l) l' = extend page (l ++ l') := by
  simp only [extend, List.map_append, List.append_assoc]

/-- `attributeAll` keeps what additions keep and only adds to pages, even if a fault stops it. By
induction over `tours`. -/
theorem attributeAll_keeps {I : State → Prop} {P : Attribution → Prop} {t : Thresholds}
    {tours : List (Tour n)} {st : State}
    (h : ∀ x ∈ tours, ∀ page, Keeps I (e.additions t page x.walked) fun added => ∀ a ∈ added, P a)
    (hst : I st) (pages : Vector Page n) :
    I ((e.attributeAll t tours pages).run st).2 ∧
      ∀ i, ∃ added, ((e.attributeAll t tours pages).run st).1.1.get i = extend (pages.get i) added ∧
        ∀ a ∈ added, P a := by
  induction tours generalizing pages st with
  | nil => exact ⟨hst, fun i => ⟨[], (extend_nil _).symm, nofun⟩⟩
  | cons tour tours ih =>
      obtain ⟨hst₁, hP⟩ := h tour List.mem_cons_self (pages.get tour.page) st hst
      rw [attributeAll_cons]
      generalize (e.additions t (pages.get tour.page) tour.walked).on st = r at hst₁ hP
      obtain ⟨fault | first, st₁⟩ := r
      · exact ⟨hst₁, fun i => ⟨[], (extend_nil _).symm, nofun⟩⟩
      · obtain ⟨hst₂, hrest⟩ := ih (fun x hx => h x (List.mem_cons_of_mem _ hx)) hst₁
          (addTo pages tour.page first)
        refine ⟨hst₂, fun i => ?_⟩
        obtain ⟨rest, hget, hrestP⟩ := hrest i
        dsimp only
        rw [hget, get_addTo]
        -- the page may come up again: what it gets then stands behind what it gets now
        by_cases hi : i = tour.page
        · refine ⟨first ++ rest, ?_, List.forall_mem_append.mpr ⟨hP first rfl, hrestP⟩⟩
          rw [if_pos hi, hi, extend_extend]
        · exact ⟨rest, by rw [if_neg hi], hrestP⟩

/-- **`enrich` keeps what its tours and additions keep and only adds to pages**, even if it
fails. -/
theorem enrich_keeps {I : State → Prop} {P : Attribution → Prop} {sources : List OperationSource}
    {pages : Vector Page n} {order : List (Fin n)} {st : State} (hnew : I ⟨st.session, .empty⟩)
    (hfirst : Keeps I (e.tourAll (e.factsByFile sources) pages order .empty) fun _ => True)
    (hsecond : ∀ tours walks st₁,
      (e.tourAll (e.factsByFile sources) pages order .empty).on ⟨st.session, .empty⟩ =
        (.ok (tours, walks), st₁) →
      ∀ x ∈ tours, ∀ t page, Keeps I (e.additions t page x.walked) fun added => ∀ a ∈ added, P a) :
    I ((e.enrich pages order sources).run st).2 ∧
      ∀ i, ∃ added, ((e.enrich pages order sources).run st).1.1.get i =
          extend (pages.get i) added ∧ ∀ a ∈ added, P a := by
  have hsame : ∀ i, ∃ added, pages.get i = extend (pages.get i) added ∧ ∀ a ∈ added, P a :=
    fun i => ⟨[], (extend_nil _).symm, nofun⟩
  obtain ⟨hst₁, -⟩ := hfirst _ hnew
  rw [enrich_run]
  generalize hrun : (e.tourAll (e.factsByFile sources) pages order .empty).on
    ⟨st.session, .empty⟩ = r at hst₁
  obtain ⟨fault | ⟨tours, walks⟩, st₁⟩ := r
  · exact ⟨hst₁, hsame⟩
  · dsimp only
    rw [finish_run]
    cases thresholds st₁.reachability (walkedPages tours) with
    | error fault => exact ⟨hst₁, hsame⟩
    | ok t =>
        exact attributeAll_keeps (fun x hx => hsecond tours walks st₁ hrun x hx t) hst₁ pages

theorem enrich_adds (e : Engine) (pages : Vector Page n) (order : List (Fin n))
    (sources : List OperationSource) (st : State) (i : Fin n) :
    ∃ added, ((e.enrich pages order sources).run st).1.1.get i = extend (pages.get i) added := by
  have hkeeps {α : Type} {Q : α → Prop} (x : Work α) (hQ : ∀ a, Q a) : Keeps (fun _ => True) x Q :=
    fun _ _ => ⟨trivial, fun a _ => hQ a⟩
  obtain ⟨added, hget, -⟩ := (enrich_keeps (I := fun _ => True) (P := fun _ => True) trivial
    (hkeeps (e.tourAll (e.factsByFile sources) pages order .empty) fun _ => trivial)
    fun _ _ _ _ _ _ _ _ => hkeeps _ fun _ _ _ => trivial).2 i
  exact ⟨added, hget⟩

/-! ## Runs: `Comes` -/

/-- The `pages` with the attributions `added` to those of them that come up in `order`. -/
def extendAll (pages : Vector Page n) (order : List (Fin n)) (added : Fin n → List Attribution) :
    Vector Page n :=
  .ofFn fun i => if i ∈ order then extend (pages.get i) (added i) else pages.get i

/-- The counts after `tourAll`. -/
def visitCounts (order : List (Fin n)) (walked : Fin n → Option (String × Walk)) : Table Nat :=
  (order.flatMap fun i => visitedOn (walked i)).foldl countFile .empty

/-- The tours of the pages that come up. -/
def toursOf (order : List (Fin n)) (walked : Fin n → Option (String × Walk)) : List (Tour n) :=
  order.map fun i => ⟨i, walked i⟩

section Runs

variable {sources : List OperationSource} {pages pages' : Vector Page n} {order : List (Fin n)}
  {walked : Fin n → Option (String × Walk)} {added : Fin n → List Attribution} {t : Thresholds}
  {counts : Table Nat} {s : Session} {st st' : State} {report : Report}

theorem get_extendAll (i : Fin n) : (extendAll pages order added).get i =
    if i ∈ order then extend (pages.get i) (added i) else pages.get i := by
  show (extendAll pages order added)[i.val] = _
  rw [extendAll, Vector.getElem_ofFn]

theorem get_addTo_of_ne {i k : Fin n} (h : k ≠ i) (l : List Attribution) :
    (addTo pages i l).get k = pages.get k := by
  rw [get_addTo, if_neg h]

theorem extendAll_cons {i : Fin n} (hi : i ∉ order) :
    extendAll (addTo pages i (added i)) order added = extendAll pages (i :: order) added := by
  refine Vector.ext fun k hk => ?_
  show (extendAll _ order added).get ⟨k, hk⟩ = (extendAll pages _ added).get ⟨k, hk⟩
  rw [get_extendAll, get_extendAll, get_addTo]
  by_cases hki : (⟨k, hk⟩ : Fin n) = i
  · rw [hki, if_neg hi, if_pos rfl, if_pos List.mem_cons_self]
  · simp only [hki, if_false, List.mem_cons, false_or]

theorem attributeAll_comes_back (hdistinct : order.Nodup)
    (h : ∀ i ∈ order, e.additionsOf t counts (pages.get i) (walked i) = .ok (added i))
    (hs : e.Faithful s) :
    ∃ s', (e.attributeAll t (toursOf order walked) pages).run ⟨s, counts⟩ =
      ((extendAll pages order added, .ok (order.map fun i => (added i).length).sum),
        ⟨s', counts⟩) := by
  induction order generalizing pages s with
  | nil =>
      refine ⟨s, ?_⟩
      have hnone : extendAll pages [] added = pages := by
        refine Vector.ext fun k hk => ?_
        show (extendAll pages [] added).get ⟨k, hk⟩ = pages.get ⟨k, hk⟩
        rw [get_extendAll, if_neg List.not_mem_nil]
      rw [hnone]
      rfl
  | cons i order ih =>
      obtain ⟨hi, hrest⟩ := List.nodup_cons.mp hdistinct
      have hothers : ∀ k ∈ order, e.additionsOf t counts
          ((addTo pages i (added i)).get k) (walked k) = .ok (added k) := by
        intro k hk
        have hne : k ≠ i := fun heq => hi (heq ▸ hk)
        rw [get_addTo_of_ne hne]
        exact h k (List.mem_cons_of_mem _ hk)
      obtain ⟨s₁, hfirst, hs₁⟩ := additions_on hs t counts (pages.get i) (walked i)
      obtain ⟨s₂, hsecond⟩ := ih hrest hothers hs₁
      refine ⟨s₂, ?_⟩
      rw [toursOf] at hsecond ⊢
      rw [List.map_cons, attributeAll_cons, hfirst, h i List.mem_cons_self]
      dsimp only
      rw [hsecond, extendAll_cons hi, List.map_cons, List.sum_cons]
      rfl

theorem additionsOf_of_attributeAll {count : Nat} (hdistinct : order.Nodup) (hs : e.Faithful s)
    (h : (e.attributeAll t (toursOf order walked) pages).run ⟨s, counts⟩ =
      ((pages', .ok count), st')) :
    ∀ i ∈ order, ∃ l, e.additionsOf t counts (pages.get i) (walked i) = .ok l := by
  induction order generalizing pages s count with
  | nil => nofun
  | cons i order ih =>
      obtain ⟨hi, hrest⟩ := List.nodup_cons.mp hdistinct
      rw [toursOf, List.map_cons] at h
      obtain ⟨first, rest, st₁, hfirst, hsecond, -⟩ := attributeAll_cons_ok h
      obtain ⟨s₁, hadditions, hs₁⟩ := additions_on hs t counts (pages.get i) (walked i)
      obtain ⟨hok, rfl⟩ := Prod.mk.inj (hadditions.symm.trans hfirst)
      intro k hk
      rcases List.mem_cons.mp hk with rfl | hk
      · exact ⟨first, hok⟩
      · have hne : k ≠ i := fun heq => hi (heq ▸ hk)
        rw [← get_addTo_of_ne hne first]
        exact ih hrest hs₁ hsecond k hk

/-- A run comes back: each page has a tour (`tourOf`), there are `thresholds`, and each page has
additions (`additionsOf`). -/
structure Comes (e : Engine) (sources : List OperationSource) (pages : Vector Page n)
    (order : List (Fin n)) (walked : Fin n → Option (String × Walk)) (t : Thresholds)
    (added : Fin n → List Attribution) : Prop where
  tours : ∀ i ∈ order, e.tourOf (e.factsByFile sources) (pages.get i) = .ok (walked i)
  thresholds : Engine.thresholds (visitCounts order walked) (walkedPages (toursOf order walked)) =
    .ok t
  additions : ∀ i ∈ order,
    e.additionsOf t (visitCounts order walked) (pages.get i) (walked i) = .ok (added i)

theorem Comes.enrich (h : e.Comes sources pages order walked t added) (hdistinct : order.Nodup)
    (hs : e.Faithful st.session) :
    ∃ report st', (e.enrich pages order sources).run st =
        ((extendAll pages order added, .ok report), st') ∧
      report.thresholds = t ∧ report.reachability = visitCounts order walked ∧
      report.attributionsAdded = (order.map fun i => (added i).length).sum := by
  obtain ⟨walks, s₁, hfirst, hs₁⟩ := tourAll_comes_back h.tours hs .empty .empty
  obtain ⟨s₂, hsecond⟩ := attributeAll_comes_back hdistinct h.additions hs₁
  have hthresholds := h.thresholds
  rw [visitCounts] at hthresholds hsecond ⊢
  rw [toursOf] at hthresholds hsecond
  rw [enrich_run, hfirst]
  dsimp only
  rw [finish_run, hthresholds]
  dsimp only
  rw [hsecond]
  exact ⟨_, _, rfl, rfl, rfl, rfl⟩

theorem comes_of_enrich (hdistinct : order.Nodup) (hs : e.Faithful st.session)
    (h : (e.enrich pages order sources).run st = ((pages', .ok report), st')) :
    ∃ walked added, e.Comes sources pages order walked report.thresholds added := by
  obtain ⟨tours, walks, st₁, hfirst, hthresholds, hsecond, -⟩ := enrich_ok h
  have hs₀ : e.Faithful (State.mk st.session .empty).session := hs
  -- for pages that do not come up, any tour and any additions will do
  have hexists : ∀ i, ∃ walked, i ∈ order →
      e.tourOf (e.factsByFile sources) (pages.get i) = .ok walked := by
    intro i
    by_cases hi : i ∈ order
    · obtain ⟨walked, hwalked⟩ := tourOf_of_tourAll hs₀ hfirst i hi
      exact ⟨walked, fun _ => hwalked⟩
    · exact ⟨none, fun hmem => absurd hmem hi⟩
  choose walked hwalked using hexists
  obtain ⟨walks', s₁, hfirst', hs₁⟩ := tourAll_comes_back hwalked hs .empty .empty
  cases hfirst.symm.trans hfirst'
  have hadditions : ∀ i, ∃ l, i ∈ order → e.additionsOf report.thresholds
      (visitCounts order walked) (pages.get i) (walked i) = .ok l := by
    intro i
    by_cases hi : i ∈ order
    · obtain ⟨l, hl⟩ := additionsOf_of_attributeAll hdistinct hs₁ hsecond i hi
      exact ⟨l, fun _ => hl⟩
    · exact ⟨[], fun hmem => absurd hmem hi⟩
  choose added hadded using hadditions
  exact ⟨walked, added, hwalked, hthresholds, hadded⟩

end Runs

end PageReach.Engine
