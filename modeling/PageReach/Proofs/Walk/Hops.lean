import Mathlib.Order.Bounds.Defs
import PageReach.Proofs.Walk.Completeness
import PageReach.Proofs.Walk.Links

/-!
# Hops

A file ought to be one hop farther away than the nearest file from which it is reached
(`LeastHops`). A walk does not always get this right. A barrel can be asked for a name, or be
opened, when the file behind it has been visited already, and a visited file keeps its hops. So
there can be *shortcuts*: steps that lead to a file by more than one hop.

Hops are never too few (`exists_chain`), and they are right exactly if there is no shortcut
(`Ended.leastHops_iff`). This is so in particular if barrels are imported only as a whole
(`WholeBarrels.noShortcut`).
-/

namespace PageReach.Journey

variable {j : Journey Id} {w w' : Walk}

/-! ## The depth of a visit: `VisitsAt` -/

/-- A walk visits the file `f` in `hop` hops: this is how the file stands in the queue when it comes
up for the first time. -/
def VisitsAt (j : Journey Id) (w : Walk) (f : String) (hop : Nat) : Prop :=
  ∃ v v' u rest, j.Rounds j.start v ∧ v.queue = (hop, f) :: rest ∧ f ∉ v.visited ∧ j.Round v v' ∧
    j.Rounds v' u ∧ w = { u with queue := w.queue, truncated := w.truncated }

theorem Round.hops_of_head (h : j.Round w w') (hw : j.Sound w) {f : String} {hop : Nat}
    {rest : List (Nat × String)} (hq : w.queue = (hop, f) :: rest) (hf : f ∉ w.visited) :
    f ∈ w'.visited ∧ w'.hops.get? f = some hop := by
  cases h with
  | skip hq' hf' =>
      cases hq.symm.trans hq'
      exact absurd hf' hf
  | visit hq' hf' hl hp hself =>
      cases hq.symm.trans hq'
      have hv := List.mem_append_right w.visited (List.mem_cons_self (a := f) (l := []))
      rw [hp.visited, hp.moves.grows.fixed f hv]
      exact ⟨hv, hw.head_hops hq hf⟩

/-- The `Round` in which a file was visited. -/
theorem Rounds.exists_visit (h : j.Rounds j.start w) {f : String} {hop : Nat} (hf : f ∈ w.visited)
    (hhop : w.hops.get? f = some hop) :
    ∃ v v' rest, j.Rounds j.start v ∧ v.queue = (hop, f) :: rest ∧ f ∉ v.visited ∧ j.Round v v' ∧
      j.Rounds v' w := by
  induction h with
  | refl => exact absurd hf List.not_mem_nil
  | @tail v v' hv hround ih =>
      by_cases hold : f ∈ v.visited
      · rw [hround.moves.grows.fixed f hold] at hhop
        obtain ⟨u, u', rest, hu, hq, hfu, hround', hrest⟩ := ih hold hhop
        exact ⟨u, u', rest, hu, hq, hfu, hround', hrest.tail hround⟩
      · cases hround with
        | skip hq hfv => exact absurd hf hold
        | @visit hop' g rest _ hq hg hl hp hself =>
            have hround : j.Round v v' := .visit hq hg hl hp hself
            have hfg : f = g := by
              rw [hp.visited] at hf
              rcases List.mem_append.mp hf with hf | hf
              · exact absurd hf hold
              · exact List.mem_singleton.mp hf
            subst hfg
            obtain ⟨-, hhop'⟩ := hround.hops_of_head (Rounds.sound hv) hq hg
            cases hhop.symm.trans hhop'
            exact ⟨v, v', rest, hv, hq, hg, hround, .refl⟩

theorem Ended.visitsAt_iff (h : j.Ended w) {f : String} {hop : Nat} :
    j.VisitsAt w f hop ↔ f ∈ w.visited ∧ w.hops.get? f = some hop := by
  constructor
  · rintro ⟨v, v', u, rest, hv, hq, hf, hround, hrest, hw⟩
    obtain ⟨hmem, hhop⟩ := hround.hops_of_head hv.sound hq hf
    have hgrows := hrest.moves.grows
    rw [hw]
    exact ⟨hgrows.visited.subset hmem, (hgrows.fixed f hmem).trans hhop⟩
  · rintro ⟨hf, hhop⟩
    obtain ⟨u, hm, hw⟩ := h.came
    rw [hw] at hf hhop
    obtain ⟨v, v', rest, hv, hq, hfv, hround, hrest⟩ := hm.exists_visit hf hhop
    exact ⟨v, v', u, rest, hv, hq, hfv, hround, hrest, hw⟩

/-! ## Steps: `Step` and `Chain` -/

/-- How a walk gets from a file to another one: by an edge of a followed file, or through a barrel
from which a followed file imports a name. -/
inductive Step (j : Journey Id) (w : Walk) : String → String → Prop where
  | edge {p g : String} {e : Edge} :
    p ∈ w.expanded → e ∈ (j.graph.edges p).run → (j.graph.resolve p e.specifier).run = some g →
      Step j w p g
  | name {f p g n : String} {e : Edge} :
    f ∈ w.expanded → e ∈ (j.graph.edges f).run → (j.graph.resolve f e.specifier).run = some p →
      j.IsBarrel p → p ≠ j.entry → n ∈ e.names.getD [] → (j.origin p n).run = some g → g ≠ p →
      Step j w p g

/-- A file is so many of these steps (`Step`) away from the entry. -/
inductive Chain (j : Journey Id) (w : Walk) : Nat → String → Prop where
  | entry : Chain j w 0 j.entry
  | step {n : Nat} {p g : String} : Chain j w n p → j.Step w p g → Chain j w (n + 1) g

theorem Step.of_leads {p g : String} {e : Edge} (hp : p ∈ w.expanded) (h : j.Leads p e g) :
    j.Step w p g :=
  .edge hp h.1 h.2.1

theorem Step.of_asks {f b n o : String} {e : Edge} (hf : f ∈ w.expanded)
    (h : j.Asks f e b n (some o)) (hne : o ≠ b) : j.Step w b o :=
  .name hf h.1.1.1 h.1.1.2.1 h.1.2.1 h.1.2.2 h.2.1 h.2.2 hne

/-- A `Step` starts from a visited file. -/
theorem Ended.visited_of_step (h : j.Ended w) (ht : w.truncated = false) {p g : String}
    (hstep : j.Step w p g) : p ∈ w.visited := by
  have hw := (h.rounds ht).1.sound
  cases hstep with
  | edge hp _ _ => exact hw.expanded_visited p hp
  | @name f _ _ _ _ hf he hr hb hne hn ho hgp =>
      by_cases hpf : p = f
      · rw [hpf]
        exact hw.expanded_visited f hf
      · exact (h.complete ht (.edge (hw.follows f hf) ⟨he, hr, hpf⟩)).1

/-- Hops are never too few: there is always a `Chain` as short as they say. -/
theorem exists_chain (hw : j.Linked w) {g : String} {hop : Nat} (h : w.hops.get? g = some hop) :
    ∃ n ≤ hop, j.Chain w n g := by
  induction hop using Nat.strongRecOn generalizing g with
  | _ hop ih =>
    by_cases hg : g = j.entry
    · exact ⟨0, Nat.zero_le _, hg ▸ .entry⟩
    · obtain ⟨link, -, hoffer⟩ := hw.others g hop h hg
      cases hoffer with
      | edge hp hhop _ hl =>
          obtain ⟨n, hle, hchain⟩ := ih _ (Nat.lt_succ_self _) hhop
          exact ⟨n + 1, Nat.succ_le_succ hle, hchain.step (.of_leads hp hl)⟩
      | @name f b n _ hop barrelHop e he ha hne =>
          have hname := Step.of_asks he.expanded ha hne
          obtain ⟨hb, hbhop, hble⟩ := he.known
          simp only [Walk.barrelHops] at ih ⊢
          -- the way leads through the barrel, whichever of its hops the push was made with
          by_cases hmin : hop + 2 ≤ barrelHop + 1
          · obtain ⟨n, hle, hchain⟩ := ih hop (by omega) he.hops
            have hbarrel := hchain.step (.of_leads he.expanded he.enters.1)
            exact ⟨n + 1 + 1, by omega, hbarrel.step hname⟩
          · obtain ⟨n, hle, hchain⟩ := ih hb (by omega) hbhop
            exact ⟨n + 1, by omega, hchain.step hname⟩

/-! ## Shortcuts: `NoShortcut` -/

/-- Every visited file other than the entry is one hop farther away than the nearest visited file
from which there is a step to it. -/
def LeastHops (j : Journey Id) (w : Walk) : Prop :=
  ∀ g ∈ w.visited, g ≠ j.entry → ∃ hop, w.hops.get? g = some hop ∧
    IsLeast { n | ∃ p h, p ∈ w.visited ∧ j.Step w p g ∧ w.hops.get? p = some h ∧ n = h + 1 } hop

/-- No `Step` leads more than one hop farther away. -/
def NoShortcut (j : Journey Id) (w : Walk) : Prop :=
  ∀ p g h hop, j.Step w p g → w.hops.get? p = some h → w.hops.get? g = some hop → hop ≤ h + 1

/-- Without shortcuts, what is reached through a barrel is one hop behind it. -/
theorem NoShortcut.hop_of_name (hshort : j.NoShortcut w) {f b n g : String} {hop barrelHop : Nat}
    {e : Edge} (he : j.Entering w f hop e b barrelHop) (ha : j.Asks f e b n (some g)) (hne : g ≠ b)
    (hg : w.hops.get? g = some (min (hop + Walk.barrelHops) (barrelHop + 1))) :
    ∃ hb, w.hops.get? b = some hb ∧ min (hop + Walk.barrelHops) (barrelHop + 1) = hb + 1 := by
  obtain ⟨hb, hbhop, hble⟩ := he.known
  have hfb := hshort f b hop hb (.of_leads he.expanded he.enters.1) he.hops hbhop
  have hbg := hshort b g hb _ (.of_asks he.expanded ha hne) hbhop hg
  refine ⟨hb, hbhop, ?_⟩
  simp only [Walk.barrelHops] at hbg ⊢
  omega

/-- Hops are right exactly if there are no shortcuts. -/
theorem Ended.leastHops_iff (h : j.Ended w) (ht : w.truncated = false) :
    j.LeastHops w ↔ j.NoShortcut w := by
  obtain ⟨hrounds, hq⟩ := h.rounds ht
  have hw := hrounds.sound
  have hlinked := hrounds.moves.linked
  constructor
  · intro hleast p g n hop hstep hp hg
    by_cases hentry : g = j.entry
    · subst hentry
      cases hg.symm.trans hlinked.start
      exact Nat.zero_le _
    · obtain ⟨hop', hg', -, hlower⟩ := hleast g (hw.visited_of_known hq hg) hentry
      cases hg.symm.trans hg'
      exact hlower ⟨p, n, hw.visited_of_known hq hp, hstep, hp, rfl⟩
  · intro hshort g hg hentry
    obtain ⟨hop, hhop⟩ := hw.known g hg
    refine ⟨hop, hhop, ?_, ?_⟩
    · obtain ⟨link, -, hoffer⟩ := hlinked.others g hop hhop hentry
      cases hoffer with
      | edge hp hhp _ hl =>
          exact ⟨_, _, hw.expanded_visited _ hp, .of_leads hp hl, hhp, rfl⟩
      | name he ha hne =>
          obtain ⟨hb, hbhop, heq⟩ := hshort.hop_of_name he ha hne hhop
          exact ⟨_, hb, hw.visited_of_known hq hbhop, .of_asks he.expanded ha hne, hbhop, heq⟩
    · rintro _ ⟨p, n, -, hstep, hp, rfl⟩
      exact hshort p g n hop hstep hp hhop

/-- Hops are right exactly if they are the least lengths of a `Chain` from the entry. -/
theorem Ended.leastHops_iff_distance (h : j.Ended w) (ht : w.truncated = false) :
    j.LeastHops w ↔ ∀ g ∈ w.visited, ∃ hop, w.hops.get? g = some hop ∧
      IsLeast { n | j.Chain w n g } hop := by
  obtain ⟨hrounds, hq⟩ := h.rounds ht
  have hw := hrounds.sound
  have hlinked := hrounds.moves.linked
  rw [h.leastHops_iff ht]
  constructor
  · intro hshort
    -- along a chain, hops grow by at most one with each step
    have hlower {n : Nat} {g : String} (hchain : j.Chain w n g) :
        ∀ hop, w.hops.get? g = some hop → hop ≤ n := by
      induction hchain with
      | entry =>
          intro hop hhop
          cases hhop.symm.trans hlinked.start
          exact Nat.le_refl _
      | @step n p g _ hstep ih =>
          intro hop hhop
          obtain ⟨hopp, hhopp⟩ := hw.known p (h.visited_of_step ht hstep)
          have hle := ih hopp hhopp
          have hstep := hshort p g hopp hop hstep hhopp hhop
          omega
    intro g hg
    obtain ⟨hop, hhop⟩ := hw.known g hg
    obtain ⟨n, hle, hchain⟩ := exists_chain hlinked hhop
    have heq : n = hop := Nat.le_antisymm hle (hlower hchain hop hhop)
    exact ⟨hop, hhop, heq ▸ hchain, fun m hm => hlower hm hop hhop⟩
  · intro hdist p g n hop hstep hp hg
    obtain ⟨n', hn', hchain, -⟩ := hdist p (hw.visited_of_known hq hp)
    obtain ⟨hop', hhop', -, hlower⟩ := hdist g (hw.visited_of_known hq hg)
    cases hp.symm.trans hn'
    cases hg.symm.trans hhop'
    exact hlower (Chain.step hchain hstep)

/-- A page takes a name from a barrel at once. A file three hops away asks the barrel for its other
name, when the file behind it has just been visited. -/
def nameAskedLate : Journey Id where
  graph :=
    { edges f := ((Table.ofList
        [("page", [⟨"barrel", some ["x"], .origin⟩, ⟨"near", none, .origin⟩]),
          ("near", [⟨"far", none, .origin⟩]),
          ("far", [⟨"y", none, .origin⟩, ⟨"late", none, .origin⟩]),
          ("late", [⟨"barrel", some ["y"], .origin⟩])]).get? f).getD []
      surface f :=
        if f = "barrel" then ⟨.ofList [("x", ⟨"x", "x"⟩), ("y", ⟨"y", "y"⟩)], [], [], true⟩
        else ⟨.empty, [], [f], false⟩
      resolve _ specifier := some specifier }
  entry := "page"
  facts := .empty
  fileCount := 7

/-- The file `y` is visited at depth three, though the barrel that leads to it is one hop away. -/
theorem not_leastHops_nameAskedLate : ¬ nameAskedLate.LeastHops nameAskedLate.walk.run := by
  intro hleast
  obtain ⟨hop, hhop, -, hlower⟩ := hleast "y" (by decide +kernel) (by decide +kernel)
  have hdeep : nameAskedLate.walk.run.hops.get? "y" = some 3 := by decide +kernel
  cases hhop.symm.trans hdeep
  have hstep : nameAskedLate.Step nameAskedLate.walk.run "barrel" "y" :=
    .name (f := "late") (n := "y") (e := ⟨"barrel", some ["y"], .origin⟩) (by decide +kernel)
      (by decide +kernel) rfl (by decide +kernel) (by decide +kernel) (by decide +kernel)
      (by decide +kernel) (by decide +kernel)
  have hle := hlower ⟨"barrel", 1, by decide +kernel, hstep, by decide +kernel, rfl⟩
  exact absurd hle (by decide)

/-! ## Barrels imported as a whole: `WholeBarrels` -/

/-- Followed files import from barrels other than the entry without naming what they import. -/
def WholeBarrels (j : Journey Id) : Prop :=
  ∀ f e b, j.Follows f → e ∈ (j.graph.edges f).run →
    (j.graph.resolve f e.specifier).run = some b → j.IsBarrel b → b ≠ j.entry → e.names = none

theorem WholeBarrels.not_asks (hwhole : j.WholeBarrels) {f b n : String} {e : Edge}
    {o : Option String} (hf : j.Follows f) : ¬ j.Asks f e b n o := by
  intro ha
  have hnone := hwhole f e b hf ha.1.1.1 ha.1.1.2.1 ha.1.2.1 ha.1.2.2
  have hn := ha.2.1
  rw [hnone] at hn
  exact List.not_mem_nil hn

/-- Nothing is pushed but by edges: every `Offer` comes from one. -/
theorem WholeBarrels.offer (hwhole : j.WholeBarrels) (hw : j.Sound w) {g : String} {hop : Nat}
    {link : ParentLink} (h : j.Offer w g hop link) :
    ∃ p e h, p ∈ w.expanded ∧ w.hops.get? p = some h ∧ h < Walk.maxHops ∧ j.Leads p e g ∧
      hop = h + 1 := by
  cases h with
  | edge hp hh hnear hl => exact ⟨_, _, _, hp, hh, hnear, hl, rfl⟩
  | name he ha _ => exact absurd ha (hwhole.not_asks (hw.follows _ he.expanded))

/-- Between two rounds, all visited files have been followed. -/
theorem WholeBarrels.expanded (hwhole : j.WholeBarrels) (h : j.Rounds j.start w)
    {f : String} (hf : f ∈ w.visited) : f ∈ w.expanded := by
  have hw := h.sound
  have hc := h.closed
  by_cases hplain : ¬ j.IsBarrel f ∨ f = j.entry
  · exact hc.plain f hf hplain
  · simp only [not_or, not_not] at hplain
    obtain ⟨hop, hhop⟩ := hw.known f hf
    obtain ⟨link, -, hoffer⟩ := h.moves.linked.others f hop hhop hplain.2
    obtain ⟨p, e, n, hp, hn, hnear, hl, -⟩ := hwhole.offer hw hoffer
    have hnone := hwhole p e f (hw.follows p hp) hl.1 hl.2.1 hplain.1 hplain.2
    have hdone := hc.edgeDone_near hp hn hnear hl.1
    exact hc.opened f (hdone.whole f ⟨hl, hplain⟩ hnone) hf

/-- What holds between two rounds: visited files are no farther away than waiting ones, and no edge
of a file in `expanded` is a shortcut, unless it is dropped. -/
structure Levelled (j : Journey Id) (w : Walk) : Prop where
  visited : ∀ f ∈ w.visited, ∀ n, w.hops.get? f = some n → ∀ q ∈ w.queue, n ≤ q.1
  edges : ∀ p ∈ w.expanded, ∀ n, w.hops.get? p = some n → n < Walk.maxHops → ∀ e g,
    j.Leads p e g → ∃ hop, w.hops.get? g = some hop ∧ hop ≤ n + 1

theorem Levelled.later (h : j.Levelled w) (hw : j.Sound w) (hg : Grows w w') {p g : String}
    {n : Nat} {e : Edge} (hp : p ∈ w.expanded) (hn : w'.hops.get? p = some n)
    (hnear : n < Walk.maxHops) (hl : j.Leads p e g) :
    ∃ hop, w'.hops.get? g = some hop ∧ hop ≤ n + 1 := by
  rw [hg.fixed p (hw.expanded_visited p hp)] at hn
  obtain ⟨hop, hhop, hle⟩ := h.edges p hp n hn hnear e g hl
  obtain ⟨hop', hhop', hle'⟩ := hg.hops g hop hhop
  exact ⟨hop', hhop', Nat.le_trans hle' hle⟩

/-- How things stand in the round of `f`: no other file has been taken up, and what waits is no nearer
than `f`. -/
structure InRound (w : Walk) (f : String) (hop : Nat) (u : Walk) : Prop where
  expanded : ∀ p ∈ u.expanded, p ∈ w.expanded ∨ p = f
  queue : ∀ q ∈ u.queue, hop ≤ q.1

theorem InRound.push {u : Walk} {f file : String} {hop n : Nat} {link : ParentLink}
    (h : InRound w f hop u) (hlev : j.Levelled w) (hwhole : j.WholeBarrels) (hw : j.Sound w)
    (hu : j.Sound u) (hgrows : Grows w u) (hhop : u.hops.get? f = some hop)
    (hoffer : j.Offer u file n link) : InRound w f hop (u.push file n (some link)) := by
  refine ⟨by rw [Walk.push_expanded]; exact h.expanded, ?_⟩
  by_cases htakes : u.Takes file n
  · obtain ⟨p, e, m, hp, hm, hnear, hl, rfl⟩ := hwhole.offer hu hoffer
    rw [Walk.push_of_takes htakes]
    intro q hmem
    rcases Walk.mem_enqueue.mp hmem with rfl | hmem
    · rcases h.expanded p hp with hold | rfl
      · -- the edges of earlier files have nothing new to say
        obtain ⟨hop', hhop', hle⟩ := hlev.later hw hgrows hold hm hnear hl
        exact absurd (htakes.2 hop' hhop') (Nat.not_lt.mpr hle)
      · cases hm.symm.trans hhop
        exact Nat.le_succ _
    · exact h.queue q hmem
  · rw [Walk.push_of_not_takes htakes]
    exact h.queue

theorem Levelled.during (hlev : j.Levelled w) (hwhole : j.WholeBarrels)
    (hrounds : j.Rounds j.start w) {hop : Nat} {f : String} {rest : List (Nat × String)}
    (hq : w.queue = (hop, f) :: rest) (hf : f ∉ w.visited)
    (hlimit : w.visited.length < j.limit) {v : Walk}
    (hm : j.Moves (Walk.visit { w with queue := rest } f hop ((j.facts.get? f).getD [])) v)
    (hv : v.visited = w.visited ++ [f]) : InRound w f hop v := by
  have hw := hrounds.sound
  have hmove := Move.visit hq hf hlimit
  have hw₁ := hw.move hmove
  generalize hw₁eq : Walk.visit { w with queue := rest } f hop ((j.facts.get? f).getD []) = w₁
    at hm hmove hw₁
  have hvisited : w₁.visited = w.visited ++ [f] := by
    rw [← hw₁eq]
    rfl
  have hhop : w₁.hops.get? f = some hop := by
    rw [← hw₁eq]
    exact hw.head_hops hq hf
  induction hm with
  | refl =>
      rw [← hw₁eq]
      refine ⟨fun p hp => .inl hp, fun q hmem => ?_⟩
      exact Walk.Ordered.head_le (hq ▸ hw.ordered) (List.mem_cons_of_mem _ hmem)
  | @tail u v hm hlast ih =>
      have hgrows := hmove.grows.trans (Moves.grows hm)
      -- no file but `f` is visited in its round
      have hu : u.visited = w.visited ++ [f] := by
        have hprefix := hlast.grows.visited
        rw [hv, ← hvisited] at hprefix
        have hlen := (Moves.grows hm).visited.length_le
        rw [← hvisited]
        exact hprefix.eq_of_length_le hlen
      have hin := ih hu
      cases hlast with
      | push hoffer =>
          have hfv : f ∈ w₁.visited := hvisited ▸ List.mem_append_right _ List.mem_cons_self
          exact hin.push hlev hwhole hw (hw₁.moves hm) hgrows
            (((Moves.grows hm).fixed f hfv).trans hhop) hoffer
      | opening _ =>
          refine ⟨?_, ?_⟩
          · rw [Walk.openBarrel_expanded]
            exact hin.expanded
          · rw [Walk.openBarrel_queue]
            exact hin.queue
      | @takeUp g _ hg hnot _ _ =>
          refine ⟨fun p hp => ?_, hin.queue⟩
          rcases List.mem_cons.mp hp with rfl | hp
          · -- all files visited before have been taken up in their own rounds
            rcases List.mem_append.mp (hu ▸ hg) with hg | hg
            · exact absurd (hgrows.expanded (hwhole.expanded hrounds hg)) hnot
            · exact .inr (List.mem_singleton.mp hg)
          · exact hin.expanded p hp
      | skip hq' _ =>
          exact ⟨hin.expanded, fun q hmem => hin.queue q (hq' ▸ List.mem_cons_of_mem _ hmem)⟩
      | visit _ _ _ =>
          have hlen := congrArg List.length hv
          simp [Walk.visit, hu] at hlen

theorem Levelled.round (hlev : j.Levelled w) (hwhole : j.WholeBarrels)
    (hrounds : j.Rounds j.start w) (h : j.Round w w') : j.Levelled w' := by
  have hw := hrounds.sound
  have hrounds' : j.Rounds j.start w' := hrounds.tail h
  have hgrows := h.moves.grows
  cases h with
  | skip hq hf =>
      exact ⟨fun f hf n hn q hmem => hlev.visited f hf n hn q (hq ▸ List.mem_cons_of_mem _ hmem),
        hlev.edges⟩
  | @visit hop f rest _ hq hf hl hp hself =>
      obtain ⟨hexp, hqueue⟩ := hlev.during hwhole hrounds hq hf hl hp.moves hp.visited
      have hround : j.Round w w' := .visit hq hf hl hp hself
      obtain ⟨-, hhop⟩ := hround.hops_of_head hw hq hf
      -- all visited files are as near as the one that comes up, or nearer
      have hlevel (g : String) (hg : g ∈ w'.visited) (n : Nat) (hn : w'.hops.get? g = some n) :
          n ≤ hop := by
        rw [hp.visited] at hg
        rcases List.mem_append.mp hg with hg | hg
        · rw [hgrows.fixed g hg] at hn
          exact hlev.visited g hg n hn _ (hq ▸ List.mem_cons_self)
        · rw [List.mem_singleton.mp hg, hhop] at hn
          cases hn
          exact Nat.le_refl _
      refine ⟨fun g hg n hn q hmem => Nat.le_trans (hlevel g hg n hn) (hqueue q hmem), ?_⟩
      intro p hpe n hn hnear e g hlead
      rcases hexp p hpe with hold | rfl
      · exact hlev.later hw hgrows hold hn hnear hlead
      · cases hn.symm.trans hhop
        have hdone := hrounds'.closed.edgeDone_near hpe hn hnear hlead.1
        obtain ⟨m, hm, hnear⟩ := hdone.reached g hlead
        refine ⟨m, hm, ?_⟩
        rcases hnear with hv | ⟨-, n', hn', hle⟩
        · exact Nat.le_succ_of_le (hlevel g hv m hm)
        · cases hn'.symm.trans hhop
          exact hle

theorem WholeBarrels.levelled (hwhole : j.WholeBarrels) (h : j.Rounds j.start w) :
    j.Levelled w := by
  induction h with
  | refl =>
      exact ⟨fun f hf => absurd hf List.not_mem_nil, fun p hp => absurd hp List.not_mem_nil⟩
  | tail hrounds hround ih => exact ih.round hwhole hrounds hround

/-- If barrels are imported only as a whole, there is no shortcut: hops are `LeastHops`. -/
theorem WholeBarrels.noShortcut (hwhole : j.WholeBarrels) (h : j.Ended w)
    (ht : w.truncated = false) : j.NoShortcut w := by
  obtain ⟨hrounds, -⟩ := h.rounds ht
  have hw := hrounds.sound
  intro p g n hop hstep hp hg
  cases hstep with
  | @edge _ _ e hpe he hr =>
      by_cases hgp : g = p
      · subst hgp
        cases hp.symm.trans hg
        exact Nat.le_succ _
      · -- at the limit of hops there is no edge, or else the walk would be truncated
        have hnear : n < Walk.maxHops := by
          by_contra hfar
          have hdrops : j.Drops w :=
            ⟨p, hpe, ⟨n, hp, Nat.le_of_not_lt hfar⟩, List.ne_nil_of_mem he⟩
          rw [hrounds.moves.truncated_iff.mpr hdrops] at ht
          cases ht
        obtain ⟨hop', hhop', hle⟩ :=
          (hwhole.levelled hrounds).edges p hpe n hp hnear e g ⟨he, hr, hgp⟩
        cases hg.symm.trans hhop'
        exact hle
  | @name f _ _ _ e hf he hr hb hne hn _ _ =>
      rw [hwhole f e p (hw.follows f hf) he hr hb hne] at hn
      exact absurd hn List.not_mem_nil

end PageReach.Journey
