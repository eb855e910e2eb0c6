import Mathlib.Data.List.Perm.Subperm
import PageReach.Proofs.Walk.Progress
import PageReach.Proofs.Walk.Yields

/-!
# Expansions

Following the edges of a file makes nothing but moves and leaves nothing half done (`Progress`). It
may open barrels whose edges are followed at once, and these may open others; but the edges of a
file are taken up once in a walk, so that expansions are no deeper nested than there are files, and
the fuel never runs out (`expand_yields`).

The lemmas follow the functions that an expansion is made of: `reopen_yields`, `followName_yields`,
`followNames_yields`, `enterBarrel_yields`, `followEdge_yields`, `followEdges_yields`.
-/

namespace PageReach.Journey

variable {T : Prop} {k : Journey (Except Fault)} {j : Journey Id} {files : List String}
  {w w' : Walk}

/-! ## Known files: `Matches` -/

theorem Sound.known_visited (H : Matches T k j files) (hw : j.Sound w) {f : String}
    (hf : f ∈ w.visited) : f ∈ j.entry :: files := by
  obtain ⟨h, hh⟩ := hw.known f hf
  exact H.stands_known (hw.reaches f h hh)

theorem Sound.expanded_length_le (H : Matches T k j files) (hw : j.Sound w) :
    w.expanded.length ≤ files.length + 1 :=
  (List.subperm_of_subset hw.expanded_nodup fun f hf =>
    hw.known_visited H (hw.expanded_visited f hf)).length_le

/-! ## Expansions: `Expands` -/

/-- Two ways to follow the edges of a visited file agree and get it done, once `room` files have been
taken up. -/
def Expands (T : Prop) (j : Journey Id) (room : Nat) (ex : String → Nat → Walk → Except Fault Walk)
    (ex' : String → Nat → Walk → Id Walk) : Prop :=
  ∀ file hop w, j.Sound w → file ∈ w.visited → w.hops.get? file = some hop → j.Allows w file →
    room ≤ w.expanded.length →
    Yields T (ex file hop w) (ex' file hop w) fun w' => j.Progress w w' ∧ file ∈ w'.expanded

variable {room : Nat} {ex : String → Nat → Walk → Except Fault Walk}
  {ex' : String → Nat → Walk → Id Walk}

theorem reopen_yields (hex : Expands T j room ex ex') (hw : j.Sound w)
    (hroom : room ≤ w.expanded.length) {file : String} (ho : j.Opens w file) :
    Yields T (reopen ex file w) (reopen ex' file w) fun w' =>
      j.Progress w w' ∧ file ∈ w'.opened := by
  have hopen : file ∈ (w.openBarrel file).opened := Walk.mem_opened_openBarrel.mpr (.inl rfl)
  rw [reopen, reopen]
  by_cases hv : file ∈ w.visited
  · have hv' : file ∈ (w.openBarrel file).visited := by simpa using hv
    rw [if_pos (List.contains_iff_mem.mpr hv'), if_pos (List.contains_iff_mem.mpr hv')]
    obtain ⟨hop, hhop⟩ := hw.known file hv
    have hhop' : (w.openBarrel file).hops.get? file = some hop := by simpa using hhop
    rw [hhop', Option.getD_some]
    refine (hex file hop _ (hw.move (.opening ho)) hv' hhop' (.inr (.inr hopen))
      (by simpa using hroom)).imp fun w' hw' => ?_
    exact ⟨.opening ho hw'.1 fun _ => hw'.2, hw'.1.moves.grows.opened hopen⟩
  · have hv' : file ∉ (w.openBarrel file).visited := by simpa using hv
    rw [if_neg (mt List.contains_iff_mem.mp hv'), if_neg (mt List.contains_iff_mem.mp hv')]
    exact Yields.pure ⟨.opening ho (.refl _) fun h => absurd h hv', hopen⟩

/-- What following the name `n` through the barrel `b` has to get done. -/
structure NameDone (j : Journey Id) (f : String) (e : Edge) (b n : String) (state : Walk × Bool) :
    Prop where
  stuck : ∀ o, j.Asks f e b n o → o = none ∨ o = some b → state.2 = true
  origin : ∀ o, j.Asks f e b n (some o) → o ≠ b →
    (∃ h, state.1.hops.get? o = some h) ∧ (j.IsBarrel o → o ∈ state.1.opened)

/-- Names have been followed, and the barrel `b` counts as stuck only for a reason. -/
structure NamesProgress (j : Journey Id) (f : String) (e : Edge) (b : String)
    (s s' : Walk × Bool) : Prop where
  progress : j.Progress s.1 s'.1
  stays : s.2 = true → s'.2 = true
  reason : s'.2 = true → s.2 = true ∨ ∃ n o, j.Asks f e b n o ∧ (o = none ∨ o = some b)

theorem NameDone.stays {f b n : String} {e : Edge} {s s' : Walk × Bool}
    (h : j.NamesProgress f e b s s') (hd : j.NameDone f e b n s) : j.NameDone f e b n s' where
  stuck o ha ho := h.stays (hd.stuck o ha ho)
  origin o ha ho := by
    obtain ⟨⟨n, hn⟩, hopen⟩ := hd.origin o ha ho
    obtain ⟨n', hn', -⟩ := h.progress.moves.grows.hops o n hn
    exact ⟨⟨n', hn'⟩, fun hb => h.progress.moves.grows.opened (hopen hb)⟩

theorem NamesProgress.trans {f b : String} {e : Edge} {s s' s'' : Walk × Bool}
    (h : j.NamesProgress f e b s s') (h' : j.NamesProgress f e b s' s'') :
    j.NamesProgress f e b s s'' where
  progress := h.progress.trans h'.progress
  stays hs := h'.stays (h.stays hs)
  reason hs := (h'.reason hs).elim h.reason .inr

theorem followName_yields (H : Matches T k j files) (hex : Expands T j room ex ex') {f b n : String}
    {hop barrelHop : Nat} {e : Edge} {stuck : Bool} (hw : j.Sound w)
    (hroom : room ≤ w.expanded.length) (he : j.Entering w f hop e b barrelHop)
    (hn : n ∈ e.names.getD []) :
    Yields T (k.followName ex b hop barrelHop (w, stuck) n)
      (j.followName ex' b hop barrelHop (w, stuck) n) fun s =>
        j.NamesProgress f e b (w, stuck) s ∧ j.NameDone f e b n s := by
  refine Yields.bind (H.origin (H.leads_known he.enters.1) n) fun o ho hknown => ?_
  have hasks : j.Asks f e b n o := ⟨he.enters, hn, ho.symm⟩
  have same : ∀ o', j.Asks f e b n o' → o' = o := fun o' h => h.2.2.symm.trans ho.symm
  -- a name that leads nowhere, or back to the barrel, only marks the barrel as stuck
  have stuckCase (hs : o = none ∨ o = some b) :
      j.NamesProgress f e b (w, stuck) (w, true) ∧ j.NameDone f e b n (w, true) := by
    refine ⟨⟨.refl w, fun _ => rfl, fun _ => .inr ⟨n, o, hasks, hs⟩⟩, fun _ _ _ => rfl, ?_⟩
    intro o' ha hne
    rcases hs with rfl | rfl
    · exact nomatch same _ ha
    · exact absurd (Option.some.inj (same _ ha)) hne
  cases o with
  | none => exact Yields.pure (stuckCase (.inl rfl))
  | some file =>
      dsimp only
      by_cases hfb : file = b
      · rw [if_pos hfb, if_pos hfb]
        exact Yields.pure (stuckCase (.inr (by rw [hfb])))
      · rw [if_neg hfb, if_neg hfb]
        -- from here on `w₁` is the walk after the origin has been opened, if it is a barrel
        have finish (w₁ : Walk) (hp : j.Progress w w₁) (hopen : j.IsBarrel file → file ∈ w₁.opened) :
            let w₂ := w₁.push file (min (hop + Walk.barrelHops) (barrelHop + 1))
              (some ⟨b, "re-export:" ++ n, none, some "barrel"⟩)
            j.NamesProgress f e b (w, stuck) (w₂, stuck) ∧ j.NameDone f e b n (w₂, stuck) := by
          have hw₁ := hw.moves hp.moves
          have hoffer : j.Offer w₁ file _ _ :=
            .name (he.grows hw hp.moves.grows) hasks hfb
          refine ⟨⟨hp.trans (.push hoffer), id, .inl⟩, ?_, ?_⟩
          · intro o' ha hs
            rw [same _ ha] at hs
            rcases hs with hs | hs
            · exact nomatch hs
            · exact absurd (Option.some.inj hs) hfb
          · intro o' ha _
            cases same _ ha
            obtain ⟨h, hh, -⟩ := hw₁.known_push file (min (hop + Walk.barrelHops) (barrelHop + 1))
              ⟨b, "re-export:" ++ n, none, some "barrel"⟩
            exact ⟨⟨h, hh⟩, fun hb => by rw [Walk.push_opened]; exact hopen hb⟩
        refine Yields.bind (H.isPureBarrel (hknown file rfl)) fun barrel hbarrel _ => ?_
        cases barrel with
        | false =>
            refine Yields.pure (finish w (.refl w) fun hb => ?_)
            exact nomatch hbarrel.trans hb
        | true =>
            refine Yields.bind (reopen_yields hex hw hroom
              (.origin he.expanded hasks hfb hbarrel.symm)) fun w₁ _ hw₁ => ?_
            exact Yields.pure (finish w₁ hw₁.1 fun _ => hw₁.2)

/-- Every name is followed, and what has been done for one name stays done for the next
(`NameDone.stays`). -/
theorem followNames_yields (H : Matches T k j files) (hex : Expands T j room ex ex') {f b : String}
    {hop barrelHop : Nat} {e : Edge} (hw : j.Sound w) (hroom : room ≤ w.expanded.length)
    (he : j.Entering w f hop e b barrelHop) (stuck : Bool) :
    Yields T ((e.names.getD []).foldlM (k.followName ex b hop barrelHop) (w, stuck))
      ((e.names.getD []).foldlM (j.followName ex' b hop barrelHop) (w, stuck)) fun s =>
        j.NamesProgress f e b (w, stuck) s ∧ ∀ n ∈ e.names.getD [], j.NameDone f e b n s := by
  refine Yields.foldlM (I := fun s => j.Progress w s.1) (R := j.NamesProgress f e b)
    (Q := j.NameDone f e b) (fun s => ⟨.refl _, id, .inl⟩) NamesProgress.trans
    (fun hI hR => hI.trans hR.progress) NameDone.stays ?_ (a := (w, stuck)) (.refl w)
  rintro n hn ⟨w', stuck'⟩ hI
  have hgrows := hI.moves.grows
  exact followName_yields H hex (hw.moves hI.moves) (Nat.le_trans hroom hgrows.room)
    (he.grows hw hgrows) hn

/-- An edge into a barrel is `EdgeDone` when its names are, if the barrel has been opened where it
had to be. -/
theorem edgeDone_of_names {f b : String} {e : Edge} {stuck : Bool} (he : j.Enters f e b)
    (hnear : Near w' f b) (hnames : ∀ n ∈ e.names.getD [], j.NameDone f e b n (w, stuck))
    (hgrows : Grows w w') (hwhole : e.names = none → stuck = true)
    (hopen : stuck = true → b ∈ w'.opened) : j.EdgeDone w' f e := by
  have hsame (t : String) (ht : j.Leads f e t) : t = b :=
    Option.some.inj (ht.2.1.symm.trans he.1.2.1)
  refine ⟨?_, ?_, ?_, ?_⟩
  · intro t ht
    rw [hsame t ht]
    exact hnear
  · intro t ht hnone
    rw [hsame t ht.1]
    exact hopen (hwhole hnone)
  · intro t n o ha ho
    obtain rfl := hsame t ha.1.1
    exact hopen ((hnames n ha.2.1).stuck o ha ho)
  · intro t n o ha ho
    obtain rfl := hsame t ha.1.1
    obtain ⟨⟨n', hn'⟩, hop'⟩ := (hnames n ha.2.1).origin o ha ho
    obtain ⟨n'', hn'', -⟩ := hgrows.hops o n' hn'
    exact ⟨⟨n'', hn''⟩, fun hb => hgrows.opened (hop' hb)⟩

theorem enterBarrel_yields (H : Matches T k j files) (hex : Expands T j room ex ex')
    {f b : String} {hop : Nat} {e : Edge} (hw : j.Sound w) (hroom : room ≤ w.expanded.length)
    (hf : f ∈ w.expanded) (hh : w.hops.get? f = some hop) (hnear : hop < Walk.maxHops)
    (he : j.Enters f e b) :
    let link : ParentLink := ⟨f, e.specifier, some e.start.line, namesDetail e⟩
    Yields T (k.enterBarrel ex b hop e link w) (j.enterBarrel ex' b hop e link w) fun w' =>
      j.Progress w w' ∧ j.EdgeDone w' f e := by
  intro link
  have hpush : j.Progress w (w.push b (hop + 1) (some link)) := .push (.edge hf hh hnear he.1)
  have hw₁ := hw.moves hpush.moves
  obtain ⟨h, hknown, horder⟩ := hw.known_push b (hop + 1) link
  have hnearby := hw.near_push (hw.expanded_visited f hf) hh b link
  rw [enterBarrel, enterBarrel, hknown, Option.getD_some]
  generalize w.push b (hop + 1) (some link) = w₁ at hpush hw₁ hknown hnearby ⊢
  have hentering : j.Entering w₁ f hop e b h :=
    { expanded := hpush.moves.grows.expanded hf
      hops := by rw [hpush.moves.grows.fixed f (hw.expanded_visited f hf)]; exact hh
      near := hnear
      enters := he
      known := ⟨h, hknown, Nat.le_refl _⟩
      order := horder.imp_left fun hb => hpush.visited.symm ▸ hb }
  have hroom₁ := Nat.le_trans hroom hpush.moves.grows.room
  refine Yields.bind (followNames_yields H hex hw₁ hroom₁ hentering e.names.isNone) ?_
  rintro ⟨w₂, stuck⟩ - ⟨hnp, hdone⟩
  have hp₂ : j.Progress w w₂ := hpush.trans hnp.progress
  have hwhole : e.names = none → stuck = true := fun hnone => hnp.stays (by simp [hnone])
  -- what is left is to open the barrel if it is stuck
  have finish (w₃ : Walk) (hp : j.Progress w₂ w₃) (hopen : stuck = true → b ∈ w₃.opened) :
      j.Progress w w₃ ∧ j.EdgeDone w₃ f e :=
    ⟨hp₂.trans hp, edgeDone_of_names he (hnearby.grows (hnp.progress.trans hp).moves.grows) hdone
      hp.moves.grows hwhole hopen⟩
  dsimp only
  cases stuck with
  | false => exact Yields.pure (finish w₂ (.refl w₂) fun h => nomatch h)
  | true =>
      have hf₂ : f ∈ w₂.expanded := hp₂.moves.grows.expanded hf
      have hopens : j.Opens w₂ b := by
        rcases hnp.reason rfl with hnone | ⟨n, o, ha, ho⟩
        · exact .whole hf₂ he (Option.isNone_iff_eq_none.mp hnone)
        · exact .stuck hf₂ ha ho
      refine (reopen_yields hex (hw₁.moves hnp.progress.moves)
        (Nat.le_trans hroom hp₂.moves.grows.room) hopens).imp fun w₃ hw₃ => ?_
      exact finish w₃ hw₃.1 fun _ => hw₃.2

theorem followEdge_yields (H : Matches T k j files) (hex : Expands T j room ex ex')
    {f : String} {hop : Nat} {e : Edge} (hw : j.Sound w) (hroom : room ≤ w.expanded.length)
    (hf : f ∈ w.expanded) (hh : w.hops.get? f = some hop) (hnear : hop < Walk.maxHops)
    (he : e ∈ (j.graph.edges f).run) :
    Yields T (k.followEdge ex f hop w e) (j.followEdge ex' f hop w e) fun w' =>
      j.Progress w w' ∧ j.EdgeDone w' f e := by
  have hfile := hw.known_visited H (hw.expanded_visited f hf)
  refine Yields.bind (H.resolve f hfile e.specifier (.edge he)) fun t ht _ => ?_
  -- an edge that leads nowhere else asks for nothing
  have idle (hno : ∀ t, ¬ j.Leads f e t) : j.Progress w w ∧ j.EdgeDone w f e :=
    ⟨.refl w, fun t ht => absurd ht (hno t), fun t ht => absurd ht.1 (hno t),
      fun t _ _ ht => absurd ht.1.1 (hno t), fun t _ _ ht => absurd ht.1.1 (hno t)⟩
  cases t with
  | none => exact Yields.pure (idle fun t h => nomatch ht.trans h.2.1)
  | some target =>
      dsimp only
      by_cases hself : target = f
      · rw [if_pos hself, if_pos hself]
        refine Yields.pure (idle fun t h => h.2.2 ?_)
        exact (Option.some.inj (ht.trans h.2.1)).symm.trans hself
      · rw [if_neg hself, if_neg hself]
        have hl : j.Leads f e target := ⟨he, ht.symm, hself⟩
        have hsame (t : String) (h : j.Leads f e t) : t = target :=
          Option.some.inj (h.2.1.symm.trans ht.symm)
        -- the entry and files that are no barrels are pushed, and that is all
        have pushed (hb : ¬ j.Enters f e target) :
            let w' := w.push target (hop + 1)
              (some ⟨f, e.specifier, some e.start.line, namesDetail e⟩)
            j.Progress w w' ∧ j.EdgeDone w' f e := by
          refine ⟨.push (.edge hf hh hnear hl), ?_, ?_, ?_, ?_⟩
          · intro t h
            rw [hsame t h]
            exact hw.near_push (hw.expanded_visited f hf) hh target _
          · exact fun t h => absurd (hsame t h.1 ▸ h) hb
          · exact fun t _ _ h => absurd (hsame t h.1.1 ▸ h.1) hb
          · exact fun t _ _ h => absurd (hsame t h.1.1 ▸ h.1) hb
        rw [H.entry]
        by_cases hentry : target = j.entry
        · rw [if_pos hentry, if_pos hentry]
          exact Yields.pure (pushed fun h => h.2.2 hentry)
        · rw [if_neg hentry, if_neg hentry]
          refine Yields.bind (H.isPureBarrel (H.leads_known hl)) fun barrel hbarrel _ => ?_
          cases barrel with
          | false => exact Yields.pure (pushed fun h => nomatch hbarrel.trans h.2.1)
          | true =>
              exact enterBarrel_yields H hex hw hroom hf hh hnear ⟨hl, hbarrel.symm, hentry⟩

theorem followEdges_yields (H : Matches T k j files) (hex : Expands T j room ex ex')
    {f : String} {hop : Nat} {edges : List Edge} (hw : j.Sound w)
    (hroom : room ≤ w.expanded.length) (hf : f ∈ w.expanded) (hh : w.hops.get? f = some hop)
    (hnear : hop < Walk.maxHops) (hedges : ∀ e ∈ edges, e ∈ (j.graph.edges f).run) :
    Yields T (edges.foldlM (k.followEdge ex f hop) w) (edges.foldlM (j.followEdge ex' f hop) w)
      fun w' => j.Progress w w' ∧ ∀ e ∈ edges, j.EdgeDone w' f e := by
  refine Yields.foldlM (I := j.Progress w) (R := j.Progress) Progress.refl Progress.trans
    Progress.trans (fun hR hQ => hQ.grows hR.moves.grows) ?_ (.refl _)
  intro e he w' hp
  have hgrows := hp.moves.grows
  refine followEdge_yields H hex (hw.moves hp.moves) (Nat.le_trans hroom hgrows.room)
    (hgrows.expanded hf) ?_ hnear (hedges e he)
  rw [hgrows.fixed f (hw.expanded_visited f hf)]
  exact hh

/-- Expansions agree and get their file done, whatever fuel they have beyond `files.length + 2`. -/
theorem expand_yields (H : Matches T k j files) (fuel fuel' room : Nat)
    (hfuel : files.length + 2 ≤ fuel + room) (hfuel' : files.length + 2 ≤ fuel' + room) :
    Expands T j room (k.expand fuel) (j.expand fuel') := by
  induction fuel generalizing fuel' room with
  | zero =>
      intro file hop w hw _ _ _ hroom
      have := hw.expanded_length_le H
      omega
  | succ fuel ih =>
      intro file hop w hw hv hh ha hroom
      have hlen := hw.expanded_length_le H
      obtain ⟨fuel', rfl⟩ : ∃ n, fuel' = n + 1 := ⟨fuel' - 1, by omega⟩
      rw [expand, expand]
      by_cases hmem : file ∈ w.expanded
      · rw [if_pos (List.contains_iff_mem.mpr hmem), if_pos (List.contains_iff_mem.mpr hmem)]
        exact Yields.pure ⟨.refl w, hmem⟩
      · rw [if_neg (mt List.contains_iff_mem.mp hmem), if_neg (mt List.contains_iff_mem.mp hmem)]
        refine Yields.bind (H.edges file (hw.known_visited H hv)) fun edges hedges _ => ?_
        have hself : file ∈ (j.takeUp w file hop).expanded := List.mem_cons_self
        dsimp only
        by_cases hfar : Walk.maxHops ≤ hop
        · rw [if_pos hfar, if_pos hfar]
          have htake : j.takeUp w file hop =
              { w with
                expanded := file :: w.expanded
                truncated := w.truncated || !edges.isEmpty } := by
            simp [takeUp, hfar, hedges]
          rw [← htake]
          refine Yields.pure ⟨.takeUp hv hmem hh ha (.refl _) ?_, hself⟩
          cases edges with
          | nil => exact .inr fun e he => absurd (hedges ▸ he) List.not_mem_nil
          | cons e es => exact .inl ⟨hv, ⟨hop, hh, hfar⟩, by simp [htake]⟩
        · rw [if_neg hfar, if_neg hfar]
          have htake : j.takeUp w file hop = { w with expanded := file :: w.expanded } := by
            simp [takeUp, hfar]
          rw [← htake]
          have hw₁ : j.Sound (j.takeUp w file hop) := hw.move (.takeUp hv hmem hh ha)
          -- one more file is taken up, so that the expansions below have one less to go
          have hfold := followEdges_yields H (ih fuel' (room + 1) (by omega) (by omega)) hw₁
            (Nat.succ_le_succ hroom) hself hh (Nat.lt_of_not_le hfar)
            (fun e he => hedges ▸ he : ∀ e ∈ edges, e ∈ (j.graph.edges file).run)
          refine hfold.imp fun w' hw' => ?_
          exact ⟨.takeUp hv hmem hh ha hw'.1 (.inr fun e he => hw'.2 e (hedges ▸ he)),
            hw'.1.moves.grows.expanded hself⟩

end PageReach.Journey
