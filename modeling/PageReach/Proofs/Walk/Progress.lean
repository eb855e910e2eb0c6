import PageReach.Proofs.Walk.Moves

/-!
# What walks get done

Moves only add to what is visited, expanded, opened and known, and they leave alone what was noted
about a visited file (`Moves.grows`). That an edge has been followed (`EdgeDone`) is a fact about
what is known and opened, so it stays true. Between two visits, all files whose edges have been
taken up have had them followed, and all visited files that are to be followed have been taken up
(`Rounds.closed`).
-/

namespace PageReach.Journey

variable {j : Journey Id} {w w' w'' : Walk}

/-! ## Moves only add: `Grows` -/

/-- The walk `w'` is a later state of the walk `w`. -/
structure Grows (w w' : Walk) : Prop where
  visited : w.visited <+: w'.visited
  expanded : w.expanded ⊆ w'.expanded
  opened : w.opened ⊆ w'.opened
  hops : ∀ f h, w.hops.get? f = some h → ∃ h', w'.hops.get? f = some h' ∧ h' ≤ h
  /-- Visited files keep their hops. -/
  fixed : ∀ f ∈ w.visited, w'.hops.get? f = w.hops.get? f
  /-- Visited files keep their link. -/
  linked : ∀ f ∈ w.visited, w'.parents.get? f = w.parents.get? f
  truncated : w.truncated = true → w'.truncated = true
  room : w.expanded.length ≤ w'.expanded.length

theorem Grows.refl (w : Walk) : Grows w w where
  visited := List.prefix_rfl
  expanded := List.Subset.refl _
  opened := List.Subset.refl _
  hops _ h hh := ⟨h, hh, Nat.le_refl _⟩
  fixed _ _ := rfl
  linked _ _ := rfl
  truncated := id
  room := Nat.le_refl _

theorem Grows.trans (h : Grows w w') (h' : Grows w' w'') : Grows w w'' where
  visited := h.visited.trans h'.visited
  expanded := List.Subset.trans h.expanded h'.expanded
  opened := List.Subset.trans h.opened h'.opened
  hops f n hn := by
    obtain ⟨n', hn', hle⟩ := h.hops f n hn
    obtain ⟨n'', hn'', hle'⟩ := h'.hops f n' hn'
    exact ⟨n'', hn'', Nat.le_trans hle' hle⟩
  fixed f hf := (h'.fixed f (h.visited.subset hf)).trans (h.fixed f hf)
  linked f hf := (h'.linked f (h.visited.subset hf)).trans (h.linked f hf)
  truncated ht := h'.truncated (h.truncated ht)
  room := Nat.le_trans h.room h'.room

theorem Grows.push (w : Walk) (file : String) (hop : Nat) (link : ParentLink) :
    Grows w (w.push file hop (some link)) := by
  by_cases ht : w.Takes file hop
  · have hne : ∀ f ∈ w.visited, f ≠ file := fun f hf e => ht.1 (e ▸ hf)
    rw [Walk.push_of_takes ht]
    refine ⟨List.prefix_rfl, List.Subset.refl _, List.Subset.refl _, ?_, ?_, ?_, id,
      Nat.le_refl _⟩
    · intro f h hh
      by_cases hf : f = file
      · subst hf
        exact ⟨hop, Table.get?_insert_self _ _ _, Nat.le_of_lt (ht.2 h hh)⟩
      · exact ⟨h, by rw [Table.get?_insert_of_ne _ hf]; exact hh, Nat.le_refl _⟩
    · intro f hf
      exact Table.get?_insert_of_ne _ (hne f hf) _
    · intro f hf
      exact Table.get?_insert_of_ne _ (hne f hf) _
  · rw [Walk.push_of_not_takes ht]
    exact .refl w

theorem Grows.opening (w : Walk) (b : String) : Grows w (w.openBarrel b) where
  visited := by simp only [Walk.openBarrel_visited, List.prefix_rfl]
  expanded _ hf := by rw [Walk.openBarrel_expanded]; exact hf
  opened _ hb := Walk.mem_opened_openBarrel.mpr (.inr hb)
  hops _ h hh := ⟨h, by rw [Walk.openBarrel_hops]; exact hh, Nat.le_refl _⟩
  fixed _ _ := by rw [Walk.openBarrel_hops]
  linked _ _ := by rw [Walk.openBarrel_parents]
  truncated := by rw [Walk.openBarrel_truncated]; exact id
  room := Nat.le_of_eq (congrArg List.length (Walk.openBarrel_expanded w b).symm)

/-- Walks are cut short without loss of what they know. -/
theorem Grows.cut (w : Walk) (queue : List (Nat × String)) :
    Grows w { w with queue, truncated := true } :=
  { Grows.refl w with truncated := fun _ => rfl }

theorem Move.grows (h : j.Move w w') : Grows w w' := by
  cases h with
  | push h => exact .push w _ _ _
  | opening hb => exact .opening w _
  | takeUp hv he hh ha =>
      exact ⟨List.prefix_rfl, List.subset_cons_self _ _, List.Subset.refl _,
        fun _ h hh => ⟨h, hh, Nat.le_refl _⟩, fun _ _ => rfl, fun _ _ => rfl,
        fun ht => by simp [Journey.takeUp, ht], Nat.le_succ _⟩
  | skip hq hf =>
      exact ⟨List.prefix_rfl, List.Subset.refl _, List.Subset.refl _,
        fun _ h hh => ⟨h, hh, Nat.le_refl _⟩, fun _ _ => rfl, fun _ _ => rfl, id, Nat.le_refl _⟩
  | visit hq hf hl =>
      exact ⟨List.prefix_append _ _, List.Subset.refl _, List.Subset.refl _,
        fun _ h hh => ⟨h, hh, Nat.le_refl _⟩, fun _ _ => rfl, fun _ _ => rfl, id, Nat.le_refl _⟩

theorem Moves.grows (h : j.Moves w w') : Grows w w' := by
  induction h with
  | refl => exact .refl w
  | tail _ hmove ih => exact ih.trans hmove.grows

/-- After `push` the file is known, whether it was news or not. -/
theorem Sound.known_push (hw : j.Sound w) (file : String) (hop : Nat) (link : ParentLink) :
    ∃ h, (w.push file hop (some link)).hops.get? file = some h ∧
      (file ∈ w.visited ∨ h ≤ hop) := by
  by_cases ht : w.Takes file hop
  · rw [Walk.push_of_takes ht]
    exact ⟨hop, Table.get?_insert_self _ _ _, .inr (Nat.le_refl _)⟩
  · rw [Walk.push_of_not_takes ht]
    by_cases hv : file ∈ w.visited
    · obtain ⟨h, hh⟩ := hw.known file hv
      exact ⟨h, hh, .inl hv⟩
    · cases hg : w.hops.get? file with
      | none => exact absurd ⟨hv, fun h hh => by rw [hg] at hh; cases hh⟩ ht
      | some h =>
          refine ⟨h, rfl, .inr (Nat.le_of_not_lt fun hlt => ht ⟨hv, fun h' hh => ?_⟩)⟩
          rw [hg] at hh
          cases hh
          exact hlt

theorem Entering.grows {f b : String} {hop barrelHop : Nat} {e : Edge} (hw : j.Sound w)
    (h : j.Entering w f hop e b barrelHop) (hg : Grows w w') :
    j.Entering w' f hop e b barrelHop where
  expanded := hg.expanded h.expanded
  hops := by rw [hg.fixed f (hw.expanded_visited f h.expanded)]; exact h.hops
  near := h.near
  enters := h.enters
  known := by
    obtain ⟨n, hn, hle⟩ := h.known
    obtain ⟨n', hn', hle'⟩ := hg.hops b n hn
    exact ⟨n', hn', Nat.le_trans hle' hle⟩
  order := h.order.imp_left fun hb => hg.visited.subset hb

/-! ## Followed edges: `EdgeDone` and `Settled` -/

/-- The file `t` is known, and if it is not visited yet, it is at most one hop farther away than the
visited file `f`. -/
def Near (w : Walk) (f t : String) : Prop :=
  ∃ h, w.hops.get? t = some h ∧
    (t ∈ w.visited ∨ f ∈ w.visited ∧ ∃ n, w.hops.get? f = some n ∧ h ≤ n + 1)

theorem Near.grows {f t : String} (h : Near w f t) (hg : Grows w w') : Near w' f t := by
  obtain ⟨h, hh, hnear⟩ := h
  obtain ⟨h', hh', hle⟩ := hg.hops t h hh
  refine ⟨h', hh', hnear.imp (hg.visited.subset ·) ?_⟩
  rintro ⟨hf, n, hn, hhn⟩
  exact ⟨hg.visited.subset hf, n, (hg.fixed f hf).trans hn, Nat.le_trans hle hhn⟩

/-- A file that a visited file has pushed is `Near` it. -/
theorem Sound.near_push (hw : j.Sound w) {f : String} {hop : Nat} (hf : f ∈ w.visited)
    (hh : w.hops.get? f = some hop) (file : String) (link : ParentLink) :
    Near (w.push file (hop + 1) (some link)) f file := by
  have hg := Grows.push w file (hop + 1) link
  obtain ⟨h, hknown, hle⟩ := hw.known_push file (hop + 1) link
  refine ⟨h, hknown, hle.imp (hg.visited.subset ·) fun hle => ?_⟩
  exact ⟨hg.visited.subset hf, hop, (hg.fixed f hf).trans hh, hle⟩

/-- All that the edge `e` asks for has been pushed and opened. -/
structure EdgeDone (j : Journey Id) (w : Walk) (f : String) (e : Edge) : Prop where
  reached : ∀ t, j.Leads f e t → Near w f t
  whole : ∀ b, j.Enters f e b → e.names = none → b ∈ w.opened
  stuck : ∀ b n o, j.Asks f e b n o → o = none ∨ o = some b → b ∈ w.opened
  origin : ∀ b n o, j.Asks f e b n (some o) → o ≠ b →
    (∃ h, w.hops.get? o = some h) ∧ (j.IsBarrel o → o ∈ w.opened)

theorem EdgeDone.grows {f : String} {e : Edge} (h : j.EdgeDone w f e) (hg : Grows w w') :
    j.EdgeDone w' f e where
  reached t ht := (h.reached t ht).grows hg
  whole b hb hn := hg.opened (h.whole b hb hn)
  stuck b n o ha ho := hg.opened (h.stuck b n o ha ho)
  origin b n o ha ho := by
    obtain ⟨⟨m, hm⟩, hopen⟩ := h.origin b n o ha ho
    obtain ⟨m', hm', -⟩ := hg.hops o m hm
    exact ⟨⟨m', hm'⟩, fun hb => hg.opened (hopen hb)⟩

/-- The edges of the visited file `f` are dropped at the limit of hops, which truncates the walk. -/
structure Dropped (w : Walk) (f : String) : Prop where
  visited : f ∈ w.visited
  far : ∃ n, w.hops.get? f = some n ∧ Walk.maxHops ≤ n
  truncated : w.truncated = true

theorem Dropped.grows {f : String} (h : Dropped w f) (hg : Grows w w') : Dropped w' f where
  visited := hg.visited.subset h.visited
  far := by rw [hg.fixed f h.visited]; exact h.far
  truncated := hg.truncated h.truncated

/-- The edges of a file have been followed, unless they are `Dropped`. -/
def Settled (j : Journey Id) (w : Walk) (f : String) : Prop :=
  Dropped w f ∨ ∀ e ∈ (j.graph.edges f).run, j.EdgeDone w f e

theorem Settled.grows {f : String} (h : j.Settled w f) (hg : Grows w w') : j.Settled w' f :=
  h.imp (·.grows hg) fun he e hmem => (he e hmem).grows hg

/-! ## Between two visits: `Progress` -/

/-- Moves between two visits that leave no edge half followed and no opened file behind. -/
structure Progress (j : Journey Id) (w w' : Walk) : Prop where
  moves : j.Moves w w'
  visited : w'.visited = w.visited
  settled : ∀ f ∈ w'.expanded, f ∈ w.expanded ∨ j.Settled w' f
  opened : ∀ b ∈ w'.opened, b ∈ w.opened ∨ (b ∈ w'.visited → b ∈ w'.expanded)

theorem Progress.refl (w : Walk) : j.Progress w w where
  moves := .refl
  visited := rfl
  settled _ := .inl
  opened _ := .inl

theorem Progress.trans (h : j.Progress w w') (h' : j.Progress w' w'') : j.Progress w w'' where
  moves := h.moves.trans h'.moves
  visited := h'.visited.trans h.visited
  settled f hf := by
    rcases h'.settled f hf with hf' | hs
    · exact (h.settled f hf').imp id fun hs => hs.grows h'.moves.grows
    · exact .inr hs
  opened b hb := by
    rcases h'.opened b hb with hb' | hs
    · refine (h.opened b hb').imp id fun hs hv => ?_
      exact h'.moves.grows.expanded (hs (h'.visited ▸ hv))
    · exact .inr hs

theorem Progress.push {file : String} {hop : Nat} {link : ParentLink}
    (h : j.Offer w file hop link) : j.Progress w (w.push file hop (some link)) where
  moves := .single (.push h)
  visited := Walk.push_visited _ _ _ _
  settled f hf := .inl (by rwa [Walk.push_expanded] at hf)
  opened b hb := .inl (by rwa [Walk.push_opened] at hb)

/-- A barrel that is opened has to be taken up at once if it is visited. -/
theorem Progress.opening {b : String} (hb : j.Opens w b) (h : j.Progress (w.openBarrel b) w')
    (hexp : b ∈ w'.visited → b ∈ w'.expanded) : j.Progress w w' where
  moves := .head (.opening hb) h.moves
  visited := h.visited.trans (Walk.openBarrel_visited _ _)
  settled f hf := by
    have := h.settled f hf
    rwa [Walk.openBarrel_expanded] at this
  opened b' hb' := by
    rcases h.opened b' hb' with hb' | hs
    · rcases Walk.mem_opened_openBarrel.mp hb' with rfl | hb'
      · exact .inr hexp
      · exact .inl hb'
    · exact .inr hs

/-- To take up a file by `takeUp` and to follow all its edges. -/
theorem Progress.takeUp {f : String} {hop : Nat} (hv : f ∈ w.visited) (he : f ∉ w.expanded)
    (hh : w.hops.get? f = some hop) (ha : j.Allows w f) (h : j.Progress (j.takeUp w f hop) w')
    (hs : j.Settled w' f) : j.Progress w w' where
  moves := .head (.takeUp hv he hh ha) h.moves
  visited := h.visited
  settled f' hf' := by
    rcases h.settled f' hf' with hf' | hs'
    · rcases List.mem_cons.mp hf' with rfl | hf'
      · exact .inr hs
      · exact .inl hf'
    · exact .inr hs'
  opened := h.opened

/-! ## Rounds: `Round` and `Closed` -/

/-- Nothing is left to be done before the next visit. -/
structure Closed (j : Journey Id) (w : Walk) : Prop where
  settled : ∀ f ∈ w.expanded, j.Settled w f
  opened : ∀ b ∈ w.opened, b ∈ w.visited → b ∈ w.expanded
  plain : ∀ f ∈ w.visited, ¬ j.IsBarrel f ∨ f = j.entry → f ∈ w.expanded

/-- In a walk that is not truncated, all edges of followed files are `EdgeDone`. -/
theorem Closed.edgeDone (hc : j.Closed w) (ht : w.truncated = false) {f : String} {e : Edge}
    (hf : f ∈ w.expanded) (he : e ∈ (j.graph.edges f).run) : j.EdgeDone w f e := by
  rcases hc.settled f hf with hdropped | hs
  · rw [hdropped.truncated] at ht
    exact nomatch ht
  · exact hs e he

/-- Below `Walk.maxHops`, all edges of followed files are `EdgeDone`. -/
theorem Closed.edgeDone_near (hc : j.Closed w) {f : String} {n : Nat} {e : Edge}
    (hf : f ∈ w.expanded) (hn : w.hops.get? f = some n) (hnear : n < Walk.maxHops)
    (he : e ∈ (j.graph.edges f).run) : j.EdgeDone w f e := by
  rcases hc.settled f hf with hdropped | hs
  · obtain ⟨n', hn', hfar⟩ := hdropped.far
    cases hn.symm.trans hn'
    exact absurd hfar (Nat.not_le.mpr hnear)
  · exact hs e he

/-- A round of a walk: the next file of the queue is left out, or it is visited and all that follows
from this is done. -/
inductive Round (j : Journey Id) (w : Walk) : Walk → Prop where
  | skip {hop : Nat} {f : String} {rest : List (Nat × String)} :
    w.queue = (hop, f) :: rest → f ∈ w.visited → Round j w { w with queue := rest }
  | visit {hop : Nat} {f : String} {rest : List (Nat × String)} {w' : Walk} :
    w.queue = (hop, f) :: rest → f ∉ w.visited → w.visited.length < j.limit →
      j.Progress (Walk.visit { w with queue := rest } f hop ((j.facts.get? f).getD [])) w' →
      f ∈ w'.expanded ∨ ¬ j.Allows w' f → Round j w w'

/-- Any number of rounds, one `Round` after the other. -/
abbrev Rounds (j : Journey Id) : Walk → Walk → Prop := Relation.ReflTransGen j.Round

theorem Round.moves (h : j.Round w w') : j.Moves w w' := by
  cases h with
  | skip hq hf => exact .single (.skip hq hf)
  | visit hq hf hl hp _ => exact .head (.visit hq hf hl) hp.moves

theorem Rounds.moves (h : j.Rounds w w') : j.Moves w w' := by
  induction h with
  | refl => exact .refl
  | tail _ hround ih => exact ih.trans hround.moves

theorem closed_start : j.Closed j.start where
  settled _ hf := absurd hf List.not_mem_nil
  opened _ hf := absurd hf List.not_mem_nil
  plain _ hf := absurd hf List.not_mem_nil

theorem Closed.round (hc : j.Closed w) (h : j.Round w w') : j.Closed w' := by
  cases h with
  | skip hq hf =>
      have hskip := Move.skip (j := j) hq hf
      exact ⟨fun g hg => (hc.settled g hg).grows hskip.grows, hc.opened, hc.plain⟩
  | @visit hop f rest _ hq hf hl hp hself =>
      have hmove := Move.visit (j := j) hq hf hl
      have hgrows := hp.moves.grows
      have hother (g : String) (hg : g ∈ w'.visited) (hne : g ≠ f) : g ∈ w.visited := by
        rw [hp.visited] at hg
        rcases List.mem_append.mp hg with hg | hg
        · exact hg
        · exact absurd (List.mem_singleton.mp hg) hne
      refine ⟨fun g hg => ?_, fun b hbo hbv => ?_, fun g hg hplain => ?_⟩
      · rcases hp.settled g hg with hg | hs
        · exact (hc.settled g hg).grows (hmove.grows.trans hgrows)
        · exact hs
      · by_cases hbf : b = f
        · subst hbf
          exact hself.elim id fun hnot => absurd (.inr (.inr hbo)) hnot
        · rcases hp.opened b hbo with hbo | hs
          · exact hgrows.expanded (hc.opened b hbo (hother b hbv hbf))
          · exact hs hbv
      · by_cases hgf : g = f
        · subst hgf
          exact hself.elim id fun hnot => absurd (hplain.imp_right .inl) hnot
        · exact hgrows.expanded (hc.plain g (hother g hg hgf) hplain)

theorem Rounds.closed (h : j.Rounds j.start w) : j.Closed w := by
  induction h with
  | refl => exact closed_start
  | tail _ hround ih => exact ih.round hround

theorem Rounds.sound (h : j.Rounds j.start w) : j.Sound w := sound_start.moves h.moves

/-! ## Truncation: `Drops` -/

/-- The edges of some followed file stand at the limit of hops. -/
def Drops (j : Journey Id) (w : Walk) : Prop :=
  ∃ f ∈ w.expanded, (∃ n, w.hops.get? f = some n ∧ Walk.maxHops ≤ n) ∧ (j.graph.edges f).run ≠ []

theorem Drops.same (hw : j.Sound w) (hg : Grows w w') (hexp : w'.expanded = w.expanded) :
    j.Drops w' ↔ j.Drops w := by
  rw [Drops, Drops, hexp]
  refine exists_congr fun f => and_congr_right fun hf => ?_
  rw [hg.fixed f (hw.expanded_visited f hf)]

/-- Moves truncate a walk exactly by dropping edges (`Drops`). -/
theorem Moves.truncated_iff (h : j.Moves j.start w) : w.truncated = true ↔ j.Drops w := by
  induction h with
  | refl =>
      constructor
      · intro ht
        cases ht
      · rintro ⟨f, hf, -⟩
        exact absurd hf List.not_mem_nil
  | @tail u v hmoves hmove ih =>
      have hw := sound_start.moves hmoves
      have hgrows := hmove.grows
      cases hmove with
      | push _ => rw [Walk.push_truncated, ih, Drops.same hw hgrows (Walk.push_expanded _ _ _ _)]
      | opening _ =>
          rw [Walk.openBarrel_truncated, ih, Drops.same hw hgrows (Walk.openBarrel_expanded _ _)]
      | skip _ _ => exact ih.trans (Drops.same hw hgrows rfl).symm
      | visit _ _ _ => exact ih.trans (Drops.same hw hgrows rfl).symm
      | @takeUp f hop _ _ hhop _ =>
          have hf : (∃ n, u.hops.get? f = some n ∧ Walk.maxHops ≤ n) ↔ Walk.maxHops ≤ hop := by
            rw [hhop]
            simp
          have htaken : (j.takeUp u f hop).truncated = true ↔
              j.Drops u ∨ Walk.maxHops ≤ hop ∧ (j.graph.edges f).run ≠ [] := by
            simp [Journey.takeUp, ih]
          rw [htaken, Drops, Drops, ← hf]
          show _ ↔ ∃ g ∈ f :: u.expanded, (∃ n, u.hops.get? g = some n ∧ _) ∧ _
          simp only [List.mem_cons, exists_eq_or_imp]
          exact or_comm

end PageReach.Journey
