import PageReach.Proofs.Walk.Ending

/-!
# What a walk visits

A walk visits nothing but what is to be reached (`Ended.reaches`), and unless it is truncated, all
of it (`Ended.complete`). So what it visits does not depend on the order of edges
(`Reordered.mem_visited_iff`), and a barrel that is asked only for names from elsewhere leads
nowhere by itself (`Bypassed.not_follows`).
-/

namespace PageReach.Journey

variable {j j' : Journey Id} {w w' : Walk} {f : String} {s : Standing}

/-! ## Soundness and completeness -/

/-- The end of a walk comes by `Rounds`, but for what is left of the queue and the mark of
truncation. -/
theorem Ended.came (h : j.Ended w) :
    ∃ u, j.Rounds j.start u ∧ w = { u with queue := w.queue, truncated := w.truncated } := by
  cases h with
  | empty hm _ => exact ⟨w, hm, rfl⟩
  | cut hm _ _ _ => exact ⟨_, hm, rfl⟩

theorem Ended.nodup (h : j.Ended w) : w.visited.Nodup := by
  obtain ⟨u, hm, hw⟩ := h.came
  rw [hw]
  exact hm.sound.nodup

theorem Ended.reaches (h : j.Ended w) (hf : f ∈ w.visited) : j.Reaches f := by
  obtain ⟨u, hm, hw⟩ := h.came
  rw [hw] at hf
  obtain ⟨hop, hhop⟩ := hm.sound.known f hf
  exact hm.sound.reaches f hop hhop

theorem Ended.follows (h : j.Ended w) (hf : f ∈ w.expanded) : j.Follows f := by
  obtain ⟨u, hm, hw⟩ := h.came
  rw [hw] at hf
  exact hm.sound.follows f hf

theorem Ended.empty_or_truncated (h : j.Ended w) : w.queue = [] ∨ w.truncated = true := by
  cases h with
  | empty _ hq => exact .inl hq
  | cut => exact .inr rfl

/-- A walk that is not truncated has emptied its queue. -/
theorem Ended.rounds (h : j.Ended w) (ht : w.truncated = false) :
    j.Rounds j.start w ∧ w.queue = [] := by
  cases h with
  | empty hm hq => exact ⟨hm, hq⟩
  | cut => exact nomatch ht

/-- What is known to a walk with an empty queue is `visited`. -/
theorem Sound.visited_of_known (hw : j.Sound w) (hq : w.queue = []) {hop : Nat}
    (h : w.hops.get? f = some hop) : f ∈ w.visited := by
  by_contra hf
  have hmem := hw.waiting f hop h hf
  rw [hq] at hmem
  exact List.not_mem_nil hmem

theorem known_entry (h : j.Moves j.start w) : ∃ hop, w.hops.get? j.entry = some hop := by
  obtain ⟨hop, hhop, -⟩ := h.grows.hops j.entry 0 (get?_hops_start.mpr ⟨rfl, rfl⟩)
  exact ⟨hop, hhop⟩

/-- A walk that is not truncated visits what `Reaches` says and follows what `Follows` says. -/
theorem Ended.complete (h : j.Ended w) (ht : w.truncated = false) (hf : j.Stands s f) :
    f ∈ w.visited ∧ (s = .followed → f ∈ w.expanded) := by
  obtain ⟨hm, hq⟩ := h.rounds ht
  have hc := hm.closed
  have hw := hm.sound
  have done {f : String} {e : Edge} (hf : f ∈ w.expanded)
      (he : e ∈ (j.graph.edges f).run) : j.EdgeDone w f e :=
    hc.edgeDone ht hf he
  have visited {f : String} (hf : ∃ hop, w.hops.get? f = some hop) : f ∈ w.visited := by
    obtain ⟨hop, hhop⟩ := hf
    exact hw.visited_of_known hq hhop
  have led {f t : String} {e : Edge} (hf : f ∈ w.expanded) (hl : j.Leads f e t) :
      t ∈ w.visited := by
    obtain ⟨hop, hhop, -⟩ := (done hf hl.1).reached t hl
    exact visited ⟨hop, hhop⟩
  have followed {f : String} (hf : f ∈ w.expanded) {s : Standing} :
      f ∈ w.visited ∧ (s = .followed → f ∈ w.expanded) :=
    ⟨hw.expanded_visited f hf, fun _ => hf⟩
  -- by induction on why the file is to be reached: the rules are the things that have been done
  induction hf with
  | entry s => exact followed (hc.plain _ (visited (known_entry hm.moves)) (.inr rfl))
  | plain _ hb ih => exact followed (hc.plain _ ih.1 (.inl hb))
  | edge _ hl ih => exact ⟨led (ih.2 rfl) hl, nofun⟩
  | whole _ he hn ih =>
      exact followed (hc.opened _ ((done (ih.2 rfl) he.1.1).whole _ he hn) (led (ih.2 rfl) he.1))
  | stuck _ ha ho ih =>
      have hopened := (done (ih.2 rfl) ha.1.1.1).stuck _ _ _ ha ho
      exact followed (hc.opened _ hopened (led (ih.2 rfl) ha.1.1))
  | origin _ ha hne ih => exact ⟨visited ((done (ih.2 rfl) ha.1.1.1).origin _ _ _ ha hne).1, nofun⟩
  | barrel _ ha hne hb ih =>
      obtain ⟨hknown, hopen⟩ := (done (ih.2 rfl) ha.1.1.1).origin _ _ _ ha hne
      exact followed (hc.opened _ (hopen hb) (visited hknown))

theorem Ended.mem_visited_iff (h : j.Ended w) (ht : w.truncated = false) :
    f ∈ w.visited ↔ j.Reaches f :=
  ⟨h.reaches, fun hf => (h.complete ht hf).1⟩

/-! ## The order of edges: `Reordered` -/

section Origins

variable {g g' : Graph Id}

theorem throughStars_congr (hr : g.resolve = g'.resolve) (file : String)
    (follow : String → List String → Id Origin.Search) (stars visited : List String) :
    Origin.throughStars g file follow stars visited =
      Origin.throughStars g' file follow stars visited := by
  induction stars generalizing visited with
  | nil => rfl
  | cons star stars ih =>
      simp only [Origin.throughStars, Origin.throughStarsIn, hr] at ih ⊢
      simp only [ih]

/-- The search for origins looks at `surface` and `resolve`, and not at edges. -/
theorem search_congr (hs : g.surface = g'.surface) (hr : g.resolve = g'.resolve) (fuel : Nat)
    (file name : String) (visited : List String) :
    Origin.search g fuel file name visited = Origin.search g' fuel file name visited := by
  induction fuel generalizing file name visited with
  | zero => rfl
  | succ fuel ih =>
      simp only [Origin.search_succ, Graph.isPureBarrel, hs, hr, ih, throughStars_congr hr]

end Origins

/-- The journeys `j` and `j'` differ at most in the order of edges, the facts and the limit. -/
structure Reordered (j j' : Journey Id) : Prop where
  entry : j.entry = j'.entry
  fileCount : j.fileCount = j'.fileCount
  edges : ∀ f, (j.graph.edges f).run.Perm (j'.graph.edges f).run
  surface : j.graph.surface = j'.graph.surface
  resolve : j.graph.resolve = j'.graph.resolve

theorem Reordered.symm (h : j.Reordered j') : j'.Reordered j :=
  ⟨h.entry.symm, h.fileCount.symm, fun f => (h.edges f).symm, h.surface.symm, h.resolve.symm⟩

theorem Reordered.leads (h : j.Reordered j') {f t : String} {e : Edge} (hl : j.Leads f e t) :
    j'.Leads f e t :=
  ⟨(h.edges f).mem_iff.mp hl.1, h.resolve ▸ hl.2.1, hl.2.2⟩

theorem Reordered.isBarrel (h : j.Reordered j') {f : String} : j.IsBarrel f ↔ j'.IsBarrel f := by
  unfold IsBarrel Graph.isPureBarrel
  rw [h.surface]

theorem Reordered.enters (h : j.Reordered j') {f b : String} {e : Edge} (he : j.Enters f e b) :
    j'.Enters f e b :=
  ⟨h.leads he.1, h.isBarrel.mp he.2.1, h.entry ▸ he.2.2⟩

theorem Reordered.asks (h : j.Reordered j') {f b n : String} {e : Edge} {o : Option String}
    (ha : j.Asks f e b n o) : j'.Asks f e b n o := by
  have horigin : j'.origin b n = j.origin b n := by
    unfold Journey.origin
    rw [search_congr h.surface h.resolve, h.fileCount]
  exact ⟨h.enters ha.1, ha.2.1, horigin ▸ ha.2.2⟩

/-- What is to be reached (`Stands`) does not depend on the order of edges. -/
theorem Reordered.stands (h : j.Reordered j') (hf : j.Stands s f) : j'.Stands s f := by
  induction hf with
  | entry s => exact h.entry ▸ .entry s
  | plain _ hb ih => exact .plain ih (mt h.isBarrel.mpr hb)
  | edge _ hl ih => exact .edge ih (h.leads hl)
  | whole _ he hn ih => exact .whole ih (h.enters he) hn
  | stuck _ ha ho ih => exact .stuck ih (h.asks ha) ho
  | origin _ ha hne ih => exact .origin ih (h.asks ha) hne
  | barrel _ ha hne hb ih => exact .barrel ih (h.asks ha) hne (h.isBarrel.mp hb)

theorem Reordered.mem_visited_iff (h : j.Reordered j') (hw : j.Ended w) (hw' : j'.Ended w')
    (ht : w.truncated = false) (ht' : w'.truncated = false) : f ∈ w.visited ↔ f ∈ w'.visited := by
  rw [hw.mem_visited_iff ht, hw'.mem_visited_iff ht']
  exact ⟨h.stands, h.symm.stands⟩

/-! ## Barrels that are not followed: `Bypassed` -/

/-- A barrel that is asked only for names that come from elsewhere, and that is no origin itself. -/
structure Bypassed (j : Journey Id) (b : String) : Prop where
  barrel : j.IsBarrel b
  other : b ≠ j.entry
  named : ∀ f e, j.Follows f → j.Enters f e b → e.names ≠ none
  elsewhere : ∀ f e n o, j.Follows f → j.Asks f e b n o → ∃ t, o = some t ∧ t ≠ b
  noOrigin : ∀ f e b' n, j.Follows f → j.Asks f e b' n (some b) → b' = b

theorem Bypassed.not_follows {b : String} (h : j.Bypassed b) : ¬ j.Follows b := by
  intro hb
  cases hb with
  | entry => exact h.other rfl
  | plain _ hnot => exact hnot h.barrel
  | whole hf he hn => exact h.named _ _ hf he hn
  | stuck hf ha ho =>
      obtain ⟨t, rfl, hne⟩ := h.elsewhere _ _ _ _ hf ha
      rcases ho with ho | ho
      · exact nomatch ho
      · exact hne (Option.some.inj ho)
  | barrel hf ha hne _ => exact hne (h.noOrigin _ _ _ _ hf ha).symm

/-- How a file comes to be reached: from another file, or as the origin of a name. -/
theorem Reaches.from_followed (h : j.Reaches f) (hne : f ≠ j.entry) :
    (∃ p e, j.Follows p ∧ j.Leads p e f) ∨
      ∃ p e b n, j.Follows p ∧ j.Asks p e b n (some f) ∧ f ≠ b := by
  cases h with
  | entry => exact absurd rfl hne
  | edge hp hl => exact .inl ⟨_, _, hp, hl⟩
  | origin hp ha hne => exact .inr ⟨_, _, _, _, hp, ha, hne⟩

end PageReach.Journey
