import PageReach.Proofs.Walk.Progress

/-!
# Links

A walk keeps for every known file the link by which it was reached, together with its hops. Both
come from one and the same push, and what justified this push stays true (`Offer.grows`). Only the
entry has no link (`Linked`).
-/

namespace PageReach.Journey

variable {j : Journey Id} {w w' : Walk} {file : String} {hop : Nat} {link : ParentLink}

/-! ## What justifies a push stays true: `Offer.grows` -/

theorem Offer.grows (hw : j.Sound w) (h : j.Offer w file hop link) (hg : Grows w w') :
    j.Offer w' file hop link := by
  cases h with
  | edge hf hh hnear hl =>
      refine .edge (hg.expanded hf) ?_ hnear hl
      rw [hg.fixed _ (hw.expanded_visited _ hf)]
      exact hh
  | name he ha hne => exact .name (he.grows hw hg) ha hne

/-! ## Known files have a link: `Linked` -/

/-- The entry has no link, and all other files are linked as they were pushed, by an `Offer`. -/
structure Linked (j : Journey Id) (w : Walk) : Prop where
  start : w.hops.get? j.entry = some 0
  entry : w.parents.get? j.entry = none
  others : ∀ g hop, w.hops.get? g = some hop → g ≠ j.entry →
    ∃ link, w.parents.get? g = some link ∧ j.Offer w g hop link

theorem linked_start : j.Linked j.start where
  start := get?_hops_start.mpr ⟨rfl, rfl⟩
  entry := rfl
  others _ _ hg hne := absurd (get?_hops_start.mp hg).1 hne

/-- A move that leaves `hops` and `parents` alone keeps them right. -/
theorem Linked.same (h : j.Linked w) (hw : j.Sound w) (hg : Grows w w')
    (hhops : w'.hops = w.hops) (hparents : w'.parents = w.parents) : j.Linked w' where
  start := by rw [hhops]; exact h.start
  entry := by rw [hparents]; exact h.entry
  others g hop hh hne := by
    rw [hhops] at hh
    obtain ⟨link, hlink, hoffer⟩ := h.others g hop hh hne
    exact ⟨link, by rw [hparents]; exact hlink, hoffer.grows hw hg⟩

theorem Linked.push (h : j.Linked w) (hw : j.Sound w) (hoffer : j.Offer w file hop link) :
    j.Linked (w.push file hop (some link)) := by
  have hgrows := Grows.push w file hop link
  by_cases ht : w.Takes file hop
  · -- the entry is known to be as near as can be
    have hne : j.entry ≠ file := by
      rintro rfl
      exact Nat.not_lt_zero hop (ht.2 0 h.start)
    rw [Walk.push_of_takes ht] at hgrows ⊢
    refine ⟨?_, ?_, ?_⟩
    · rw [Table.get?_insert_of_ne _ hne]
      exact h.start
    · rw [Table.get?_insert_of_ne _ hne]
      exact h.entry
    · intro g n hg hgne
      by_cases hfile : g = file
      · subst hfile
        rw [Table.get?_insert_self] at hg
        cases hg
        exact ⟨link, Table.get?_insert_self _ _ _, hoffer.grows hw hgrows⟩
      · rw [Table.get?_insert_of_ne _ hfile] at hg
        obtain ⟨l, hl, ho⟩ := h.others g n hg hgne
        exact ⟨l, by rw [Table.get?_insert_of_ne _ hfile]; exact hl, ho.grows hw hgrows⟩
  · rw [Walk.push_of_not_takes ht]
    exact h

theorem Linked.move (h : j.Linked w) (hw : j.Sound w) (hm : j.Move w w') : j.Linked w' := by
  have hgrows := hm.grows
  cases hm with
  | push hoffer => exact h.push hw hoffer
  | opening _ =>
      exact h.same hw hgrows (Walk.openBarrel_hops _ _) (Walk.openBarrel_parents _ _)
  | takeUp _ _ _ _ => exact h.same hw hgrows rfl rfl
  | skip _ _ => exact h.same hw hgrows rfl rfl
  | visit _ _ _ => exact h.same hw hgrows rfl rfl

/-- **After any moves, links and hops are right**: the walk is `Linked`. -/
theorem Moves.linked (h : j.Moves j.start w) : j.Linked w := by
  induction h with
  | refl => exact linked_start
  | tail hmoves hmove ih => exact ih.move (sound_start.moves hmoves) hmove

end PageReach.Journey
