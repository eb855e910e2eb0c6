import PageReach.Proofs.Walk.Hops

/-!
# Trails

Following the links back from a visited file leads to the entry without coming to any file twice
(`Preceded.exists_trail`), since the file to which a link leads back has been visited before
(`Preceded`). A link goes back to a followed file, or to a barrel; and a barrel that is not visited
yet is nearer than the file behind it, so that it comes up first (`Offer.parent`).
-/

namespace PageReach.Journey

variable {j : Journey Id} {w w' : Walk} {g : String} {hop : Nat} {link : ParentLink}

/-! ## Where links go back to: `Preceded` -/

/-- A link goes back to a visited file, or to one that is nearer. -/
theorem Offer.parent (hw : j.Sound w) (h : j.Offer w g hop link) :
    link.parent ∈ w.visited ∨ ∃ n, w.hops.get? link.parent = some n ∧ n < hop := by
  cases h with
  | edge hf _ _ _ => exact .inl (hw.expanded_visited _ hf)
  | @name f b n _ hopf barrelHop e he ha hne =>
      obtain ⟨hb, hbhop, hle⟩ := he.known
      rcases he.order with hv | horder
      · exact .inl hv
      · refine .inr ⟨hb, hbhop, ?_⟩
        simp only [Walk.barrelHops]
        omega

/-- The file from which a visited file was reached stands before it in `visited`. -/
def Preceded (j : Journey Id) (w : Walk) : Prop :=
  ∀ g ∈ w.visited, g ≠ j.entry → ∃ link front back, w.parents.get? g = some link ∧
    w.visited = front ++ g :: back ∧ link.parent ∈ front

theorem Preceded.same (h : j.Preceded w) (hg : Grows w w') (hv : w'.visited = w.visited) :
    j.Preceded w' := by
  intro g hmem hne
  rw [hv] at hmem ⊢
  obtain ⟨link, front, back, hlink, hsplit, hparent⟩ := h g hmem hne
  exact ⟨link, front, back, (hg.linked g hmem).trans hlink, hsplit, hparent⟩

theorem Preceded.visit (h : j.Preceded w) (hw : j.Sound w) (hlinked : j.Linked w)
    {rest : List (Nat × String)} (hq : w.queue = (hop, g) :: rest) (hg : g ∉ w.visited)
    (facts : List Fact) : j.Preceded (Walk.visit { w with queue := rest } g hop facts) := by
  intro f hf hne
  rcases List.mem_append.mp hf with hf | hf
  · obtain ⟨link, front, back, hlink, hsplit, hparent⟩ := h f hf hne
    refine ⟨link, front, back ++ [g], hlink, ?_, hparent⟩
    show w.visited ++ [g] = front ++ f :: (back ++ [g])
    rw [hsplit, List.append_assoc, List.cons_append]
  · obtain rfl := List.mem_singleton.mp hf
    obtain ⟨link, hlink, hoffer⟩ := hlinked.others f hop (hw.head_hops hq hg) hne
    refine ⟨link, w.visited, [], hlink, rfl, ?_⟩
    -- a nearer file that is not visited would stand in front of this one
    rcases hoffer.parent hw with hv | ⟨n, hn, hlt⟩
    · exact hv
    · by_contra hnot
      have hwait := hw.waiting link.parent n hn hnot
      have hle := Walk.Ordered.head_le (hq ▸ hw.ordered) (hq ▸ hwait)
      exact Nat.not_lt.mpr hle hlt

theorem Preceded.move (h : j.Preceded w) (hw : j.Sound w) (hlinked : j.Linked w)
    (hm : j.Move w w') : j.Preceded w' := by
  have hgrows := hm.grows
  cases hm with
  | push _ => exact h.same hgrows (Walk.push_visited _ _ _ _)
  | opening _ => exact h.same hgrows (Walk.openBarrel_visited _ _)
  | takeUp _ _ _ _ => exact h.same hgrows rfl
  | skip _ _ => exact h.same hgrows rfl
  | visit hq hf _ => exact h.visit hw hlinked hq hf _

theorem Moves.preceded (h : j.Moves j.start w) : j.Preceded w := by
  induction h with
  | refl => exact fun g hg => absurd hg List.not_mem_nil
  | tail hmoves hmove ih =>
      exact ih.move (sound_start.moves hmoves) (Moves.linked hmoves) hmove

theorem Ended.linked (h : j.Ended w) : j.Linked w := by
  cases h with
  | empty hm _ => exact hm.moves.linked
  | cut hm _ _ _ => exact hm.moves.linked.same hm.sound (.cut _ _) rfl rfl

theorem Ended.preceded (h : j.Ended w) : j.Preceded w := by
  cases h with
  | empty hm _ => exact hm.moves.preceded
  | cut hm _ _ _ => exact hm.moves.preceded.same (.cut _ _) rfl

theorem Ended.known (h : j.Ended w) (hg : g ∈ w.visited) : ∃ hop, w.hops.get? g = some hop := by
  obtain ⟨u, hm, hw⟩ := h.came
  rw [hw] at hg ⊢
  exact hm.sound.known g hg

/-! ## Trails: `Trail` -/

/-- Links that lead from the entry to a file, each with the file to which it leads. -/
inductive Trail (j : Journey Id) (w : Walk) : List (String × ParentLink) → String → Prop where
  | nil : Trail j w [] j.entry
  | snoc {steps : List (String × ParentLink)} {g : String} {link : ParentLink} :
    Trail j w steps link.parent → w.parents.get? g = some link → Trail j w (steps ++ [(g, link)]) g

/-- The files of a `Trail`, from the entry on. -/
def trailFiles (j : Journey Id) (steps : List (String × ParentLink)) : List String :=
  j.entry :: steps.map (·.1)

theorem trailFiles_snoc (steps : List (String × ParentLink)) (g : String) (link : ParentLink) :
    j.trailFiles (steps ++ [(g, link)]) = j.trailFiles steps ++ [g] := by
  simp [trailFiles]

theorem Trail.getLast {steps : List (String × ParentLink)} (h : j.Trail w steps g) :
    (j.trailFiles steps).getLast? = some g := by
  cases h with
  | nil => rfl
  | snoc _ _ => rw [trailFiles_snoc, List.getLast?_append, List.getLast?_singleton, Option.some_or]

/-- Each link of a `Trail` starts where the one before it ends. -/
theorem Trail.parents {steps : List (String × ParentLink)} (h : j.Trail w steps g) :
    steps.map (·.2.parent) = (j.trailFiles steps).dropLast := by
  induction h with
  | nil => rfl
  | @snoc steps g link htrail _ ih =>
      have hlast := htrail.getLast
      rw [trailFiles_snoc, List.dropLast_concat, List.map_append, ih]
      exact List.dropLast_append_getLast? _ hlast

/-- Every visited file has a `Trail`, and this comes to files only that have been visited before. -/
theorem Preceded.exists_trail (h : j.Preceded w) (hnodup : w.visited.Nodup)
    {front back : List String} (hsplit : w.visited = front ++ g :: back) :
    ∃ steps, j.Trail w steps g ∧ (j.trailFiles steps).Nodup ∧ j.trailFiles steps ⊆ front ++ [g] := by
  -- by induction on how many files have been visited before
  induction hn : front.length using Nat.strongRecOn generalizing g front back with
  | _ n ih =>
    by_cases hg : g = j.entry
    · refine ⟨[], hg ▸ .nil, List.pairwise_singleton _ _, ?_⟩
      intro f hf
      rw [trailFiles, List.map_nil, List.mem_singleton] at hf
      rw [hf, hg]
      exact List.mem_append_right _ List.mem_cons_self
    · have hmem : g ∈ w.visited := hsplit ▸ List.mem_append_right _ List.mem_cons_self
      obtain ⟨link, front', back', hlink, hsplit', hparent⟩ := h g hmem hg
      -- a file is visited once, so both splits are the same
      obtain ⟨-, hback, hdisj⟩ := List.nodup_append.mp (hsplit ▸ hnodup)
      have hnew : g ∉ front := fun hmem => hdisj g hmem g List.mem_cons_self rfl
      obtain ⟨rfl, -, rfl⟩ := (List.append_cons_inj_of_notMem hnew
        (List.nodup_cons.mp hback).1).mp (hsplit.symm.trans hsplit')
      obtain ⟨front₁, mid, hfront⟩ := List.append_of_mem hparent
      have hsplit₁ : w.visited = front₁ ++ link.parent :: (mid ++ g :: back) := by
        rw [hsplit, hfront, List.append_assoc, List.cons_append]
      have hlt : front₁.length < n := by
        rw [← hn, hfront, List.length_append, List.length_cons]
        omega
      obtain ⟨steps, htrail, hnd, hsub⟩ := ih _ hlt hsplit₁ rfl
      have hsub' : j.trailFiles steps ⊆ front := by
        intro f hf
        rw [hfront]
        rcases List.mem_append.mp (hsub hf) with hf | hf
        · exact List.mem_append_left _ hf
        · exact List.mem_append_right _ (List.mem_singleton.mp hf ▸ List.mem_cons_self)
      refine ⟨steps ++ [(g, link)], htrail.snoc hlink, ?_, ?_⟩
      · rw [trailFiles_snoc]
        exact List.nodup_append.mpr ⟨hnd, List.pairwise_singleton _ g, fun a ha b hb hab =>
          hnew (List.mem_singleton.mp hb ▸ hab ▸ hsub' ha)⟩
      · rw [trailFiles_snoc]
        exact List.append_subset.mpr ⟨fun f hf => List.mem_append_left _ (hsub' hf),
          List.subset_append_right _ _⟩

end PageReach.Journey
