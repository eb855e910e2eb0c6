import Mathlib.Algebra.Order.BigOperators.Group.List
import Mathlib.Algebra.Order.Ring.Nat
import PageReach.Proofs.Walk.Expansion

/-!
# How a walk ends

A walk comes to an end by itself: with an empty queue, or because it has visited as many files as it
may (`Ended`). Its fuel never runs out, since a file is queued again only with fewer hops than
before, so that a bound for what still comes up never grows (`bound_moves`) and falls with every
file that does (`bound_visit`).
-/

namespace PageReach.Journey

variable {T : Prop} {k : Journey (Except Fault)} {j : Journey Id} {files : List String}
  {w w' : Walk}

/-! ## How often files can still be queued: `rounds` and `bound` -/

/-- How often the file `f` can still be queued. -/
def rounds (w : Walk) (f : String) : Nat :=
  if f ∈ w.visited then 0 else (w.hops.get? f).getD (Walk.maxHops + 2)

/-- A bound for the number of files that still come up in the `queue`. -/
def bound (j : Journey Id) (files : List String) (w : Walk) : Nat :=
  w.queue.length + ((j.entry :: files).map (rounds w)).sum

theorem rounds_push_of_takes {file : String} {hop : Nat} (link : ParentLink)
    (ht : w.Takes file hop) : rounds (w.push file hop (some link)) file = hop := by
  rw [Walk.push_of_takes ht, rounds, if_neg ht.1, Table.get?_insert_self, Option.getD_some]

theorem rounds_push_of_ne {file f : String} {hop : Nat} (link : ParentLink)
    (hne : f ≠ file) : rounds (w.push file hop (some link)) f = rounds w f := by
  by_cases ht : w.Takes file hop
  · rw [Walk.push_of_takes ht, rounds, rounds, Table.get?_insert_of_ne _ hne]
  · rw [Walk.push_of_not_takes ht]

theorem lt_rounds_of_takes {file : String} {hop : Nat} (ht : w.Takes file hop)
    (hnear : hop ≤ Walk.maxHops + 1) : hop < rounds w file := by
  rw [rounds, if_neg ht.1]
  cases hg : w.hops.get? file with
  | none => exact Nat.lt_succ_of_le hnear
  | some h => exact ht.2 h hg

theorem bound_push (H : Matches T k j files) (hw : j.Sound w) {file : String} {hop : Nat}
    {link : ParentLink} (h : j.Offer w file hop link) :
    j.bound files (w.push file hop (some link)) ≤ j.bound files w := by
  obtain ⟨hreach, hnear⟩ := hw.offer h
  by_cases ht : w.Takes file hop
  · have hlt := lt_rounds_of_takes ht hnear
    have hfile := rounds_push_of_takes link ht
    have hsum : ((j.entry :: files).map (rounds (w.push file hop (some link)))).sum <
        ((j.entry :: files).map (rounds w)).sum := by
      refine List.sum_lt_sum _ _ (fun f _ => ?_) ⟨file, H.stands_known hreach, by omega⟩
      by_cases hf : f = file
      · subst hf
        omega
      · exact Nat.le_of_eq (rounds_push_of_ne link hf)
    have hlen : (w.push file hop (some link)).queue.length = w.queue.length + 1 := by
      rw [Walk.push_of_takes ht]
      exact Walk.length_enqueue _ _ _
    rw [bound, bound, hlen]
    omega
  · rw [Walk.push_of_not_takes ht]

theorem rounds_visit_le (f : String) (hop : Nat) (facts : List Fact) (g : String) :
    rounds (w.visit f hop facts) g ≤ rounds w g := by
  unfold rounds
  by_cases hg : g ∈ w.visited
  · have hg' : g ∈ (w.visit f hop facts).visited := List.mem_append_left _ hg
    rw [if_pos hg']
    exact Nat.zero_le _
  · rw [if_neg hg]
    split
    · exact Nat.zero_le _
    · exact Nat.le_refl _

/-- A file that is skipped or visited comes up no more. -/
theorem bound_visit (j : Journey Id) (files : List String) {hop : Nat} {f : String}
    {rest : List (Nat × String)} (hq : w.queue = (hop, f) :: rest) (facts : List Fact) :
    j.bound files (Walk.visit { w with queue := rest } f hop facts) < j.bound files w := by
  have hsum := List.sum_le_sum (l := j.entry :: files) fun g _ =>
    rounds_visit_le (w := { w with queue := rest }) f hop facts g
  have hlen : w.queue.length = rest.length + 1 := by rw [hq]; rfl
  rw [bound, bound, hlen]
  exact Nat.lt_of_le_of_lt (Nat.add_le_add_left hsum _) (Nat.add_lt_add_right (Nat.lt_succ_self _) _)

theorem bound_move (H : Matches T k j files) (hw : j.Sound w) (h : j.Move w w') :
    j.bound files w' ≤ j.bound files w := by
  cases h with
  | push h => exact bound_push H hw h
  | @opening b hb =>
      have hrounds : rounds (w.openBarrel b) = rounds w := by
        funext f
        rw [rounds, rounds, Walk.openBarrel_visited, Walk.openBarrel_hops]
      rw [bound, bound, hrounds, Walk.openBarrel_queue]
  | takeUp => exact Nat.le_refl _
  | skip hq hf =>
      rw [bound, bound, hq]
      exact Nat.add_le_add_right (Nat.le_succ _) _
  | visit hq => exact Nat.le_of_lt (bound_visit j files hq _)

theorem bound_moves (H : Matches T k j files) (hw : j.Sound w) (h : j.Moves w w') :
    j.bound files w' ≤ j.bound files w := by
  induction h with
  | refl => exact Nat.le_refl _
  | tail hmoves hmove ih => exact Nat.le_trans (bound_move H (hw.moves hmoves) hmove) ih

theorem bound_start_le (j : Journey Id) (files : List String) :
    j.bound files j.start ≤ 1 + (files.length + 1) * (Walk.maxHops + 2) := by
  have hall : ∀ f ∈ (j.entry :: files), rounds j.start f ≤ Walk.maxHops + 2 := by
    intro f _
    unfold rounds
    split
    · exact Nat.zero_le _
    · cases hg : j.start.hops.get? f with
      | none => exact Nat.le_refl _
      | some h =>
          obtain ⟨-, rfl⟩ := get?_hops_start.mp hg
          exact Nat.zero_le _
  have hsum := List.sum_le_card_nsmul ((j.entry :: files).map (rounds j.start))
    (Walk.maxHops + 2) (by simpa using hall)
  rw [List.length_map, List.length_cons, Nat.nsmul_eq_mul] at hsum
  exact Nat.add_le_add_left hsum _

/-! ## Rounds: `run` -/

/-- A visit makes a `Round`. -/
theorem visit_yields (H : Matches T k j files) (hw : j.Sound w) {hop : Nat} {f : String}
    {rest : List (Nat × String)} (hq : w.queue = (hop, f) :: rest) (hf : f ∉ w.visited)
    (hlimit : w.visited.length < j.limit) :
    Yields T (k.visit f hop { w with queue := rest }) (j.visit f hop { w with queue := rest })
      fun w' => j.Round w w' ∧ j.bound files w' < j.bound files w := by
  have hmove := Move.visit hq hf hlimit
  have hbound := bound_visit j files hq ((j.facts.get? f).getD [])
  have hround (u : Walk) := @Round.visit j w hop f rest u hq hf hlimit
  have hhop : w.hops.get? f = some hop := hw.head_hops hq hf
  have hw₁ := hw.move hmove
  rw [visit, visit, H.facts]
  -- `w₁` is the walk with the file visited; its edges have not been taken up before
  generalize hw₁eq : Walk.visit { w with queue := rest } f hop ((j.facts.get? f).getD []) = w₁
    at hbound hround hw₁ ⊢
  have hv : f ∈ w₁.visited := by
    rw [← hw₁eq]
    exact List.mem_append_right _ List.mem_cons_self
  have hhop₁ : w₁.hops.get? f = some hop := by
    rw [← hw₁eq]
    exact hhop
  refine Yields.bind (H.isPureBarrel (hw₁.known_visited H hv)) fun barrel hbarrel _ => ?_
  have hb : barrel = true ↔ j.IsBarrel f := by
    rw [hbarrel]
    rfl
  have hcond : (barrel && decide (f ≠ j.entry) && !w₁.opened.contains f) = true ↔
      ¬ j.Allows w₁ f := by
    rw [Bool.and_eq_true, Bool.and_eq_true, hb, decide_eq_true_eq, Bool.not_eq_true',
      Bool.eq_false_iff, ne_eq, ne_eq, List.contains_iff_mem, and_assoc]
    simp only [Allows, not_or, not_not]
  rw [H.entry]
  by_cases hallows : j.Allows w₁ f
  · rw [if_neg (mt hcond.mp (not_not.mpr hallows)), if_neg (mt hcond.mp (not_not.mpr hallows))]
    have hr := H.room
    have hr' := H.room'
    refine (expand_yields H _ _ 0 (by omega) (by omega) f hop w₁ hw₁ hv hhop₁ hallows
      (Nat.zero_le _)).imp ?_
    rintro w₂ ⟨hp, hself⟩
    exact ⟨hround w₂ hp (.inl hself), Nat.lt_of_le_of_lt (bound_moves H hw₁ hp.moves) hbound⟩
  · rw [if_pos (hcond.mpr hallows), if_pos (hcond.mpr hallows)]
    exact Yields.pure ⟨hround w₁ (.refl w₁) (.inr hallows), hbound⟩

/-- How a walk looks at its end. -/
inductive Ended (j : Journey Id) : Walk → Prop where
  | empty {w : Walk} : j.Rounds j.start w → w.queue = [] → Ended j w
  /-- The limit of files is reached, and there is one more to be visited. -/
  | cut {w : Walk} {hop : Nat} {f : String} {rest : List (Nat × String)} :
    j.Rounds j.start w → w.queue = (hop, f) :: rest → f ∉ w.visited →
      j.limit ≤ w.visited.length → Ended j { w with queue := rest, truncated := true }

theorem run_yields (H : Matches T k j files) (fuel fuel' : Nat) (hm : j.Rounds j.start w)
    (hfuel : j.bound files w ≤ fuel) (hfuel' : j.bound files w ≤ fuel') :
    Yields T (k.run fuel w) (j.run fuel' w) j.Ended := by
  -- every round takes something off the bound, so that the queue is empty before the fuel
  have hqueue : w.queue.length ≤ j.bound files w := Nat.le_add_right _ _
  induction fuel generalizing fuel' w with
  | zero =>
      have hempty : w.queue = [] := List.eq_nil_of_length_eq_zero (by omega)
      cases fuel' with
      | zero => exact Yields.pure (.empty hm hempty)
      | succ fuel' =>
          rw [run, run, hempty]
          exact Yields.pure (.empty hm hempty)
  | succ fuel ih =>
      rw [run]
      cases hq : w.queue with
      | nil =>
          cases fuel' with
          | zero => exact Yields.pure (.empty hm hq)
          | succ fuel' =>
              rw [run, hq]
              exact Yields.pure (.empty hm hq)
      | cons p rest =>
          obtain ⟨hop, f⟩ := p
          have hpos : 0 < w.queue.length := by rw [hq]; exact Nat.succ_pos _
          obtain ⟨fuel', rfl⟩ : ∃ n, fuel' = n + 1 := ⟨fuel' - 1, by omega⟩
          rw [run, hq]
          dsimp only
          by_cases hv : f ∈ w.visited
          · rw [if_pos (List.contains_iff_mem.mpr hv), if_pos (List.contains_iff_mem.mpr hv)]
            have hlt : j.bound files { w with queue := rest } < j.bound files w := by
              rw [bound, bound, hq]
              exact Nat.add_lt_add_right (Nat.lt_succ_self _) _
            exact ih fuel' (hm.tail (.skip hq hv)) (by omega) (by omega) (Nat.le_add_right _ _)
          · rw [if_neg (mt List.contains_iff_mem.mp hv), if_neg (mt List.contains_iff_mem.mp hv),
              H.limit]
            by_cases hl : j.limit ≤ w.visited.length
            · rw [if_pos hl, if_pos hl]
              exact Yields.pure (.cut hm hq hv hl)
            · rw [if_neg hl, if_neg hl]
              refine Yields.bind (visit_yields H hm.sound hq hv (Nat.lt_of_not_le hl)) ?_
              rintro w₂ - ⟨hround, hlt⟩
              exact ih fuel' (hm.tail hround) (by omega) (by omega) (Nat.le_add_right _ _)

/-- **A walk ends as it should.** Where the answers are those of a plain journey (`Matches`), the
walk is that of the plain journey, and it has been made in rounds. -/
theorem walk_yields (H : Matches T k j files) : Yields T k.walk j.walk j.Ended := by
  have hstart := bound_start_le j files
  have hr := H.room
  have hr' := H.room'
  simp only [Walk.maxHops] at hstart
  rw [walk, walk, H.entry]
  exact run_yields (w := j.start) H _ _ .refl (by omega) (by omega)

end PageReach.Journey
