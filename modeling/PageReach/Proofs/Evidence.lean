import Mathlib.Algebra.Ring.Int.Defs
import PageReach.Proofs.Walk.Trails
import PageReach.Reach.Evidence

/-!
# Evidence

The evidence for an operation in a visited file is the whole trail from the entry to the file.
Neither the guard against files that come up again nor the fuel ever ends it before
(`Trail.back_eq`, `Trail.chain_eq`). It can be longer than the file has hops, if a barrel is opened
late (`barrelOpenedLate`): the difference is what re-exports are longer than one hop
(`Trail.depth_eq`), and without shortcuts there is none (`NoShortcut.depth_eq`).
-/

namespace PageReach.Journey

variable {j : Journey Id} {w : Walk} {g : String} {steps : List (String × ParentLink)}

/-! ## Following links back: `Evidence.back` -/

theorem Trail.back_eq (h : j.Trail w steps g) (hnodup : (j.trailFiles steps).Nodup)
    (seen : List String) (fuel : Nat)
    (hseen : ∀ f ∈ (j.trailFiles steps).dropLast, f ∉ seen) (hfuel : steps.length < fuel) :
    Evidence.back w.parents j.entry fuel seen g =
      (steps.map fun s => Evidence.ofLink s.1 s.2).reverse := by
  induction h generalizing seen fuel with
  | nil =>
      obtain ⟨fuel, rfl⟩ : ∃ n, fuel = n + 1 := ⟨fuel - 1, by omega⟩
      rw [Evidence.back, if_pos rfl]
      rfl
  | @snoc steps g link htrail hlink ih =>
      obtain ⟨fuel, rfl⟩ : ∃ n, fuel = n + 1 := ⟨fuel - 1, by omega⟩
      rw [trailFiles_snoc] at hnodup hseen
      rw [List.dropLast_concat] at hseen
      obtain ⟨hnodup', -, hdisj⟩ := List.nodup_append.mp hnodup
      have hne : g ≠ j.entry := fun e =>
        hdisj j.entry List.mem_cons_self g List.mem_cons_self e.symm
      have hlast : j.trailFiles steps = (j.trailFiles steps).dropLast ++ [link.parent] :=
        (List.dropLast_append_getLast? _ htrail.getLast).symm
      have hparent : link.parent ∉ seen := by
        refine hseen _ ?_
        rw [hlast]
        exact List.mem_append_right _ List.mem_cons_self
      -- the files before the parent are neither the parent nor seen
      have hseen' : ∀ f ∈ (j.trailFiles steps).dropLast, f ∉ link.parent :: seen := by
        intro f hf hmem
        rw [hlast] at hnodup'
        rcases List.mem_cons.mp hmem with rfl | hmem
        · exact (List.nodup_append.mp hnodup').2.2 _ hf _ List.mem_cons_self rfl
        · exact hseen f (hlast ▸ List.mem_append_left _ hf) hmem
      have hfuel' : steps.length < fuel := by
        rw [List.length_append, List.length_singleton] at hfuel
        omega
      rw [Evidence.back, if_neg hne, hlink]
      dsimp only
      rw [if_neg (mt List.contains_iff_mem.mp hparent), ih hnodup' _ _ hseen' hfuel',
        List.map_append, List.reverse_append]
      rfl

/-- Every link of a trail is one of the table `parents`. -/
theorem Trail.parent_of_mem (h : j.Trail w steps g) :
    ∀ s ∈ steps, w.parents.get? s.1 = some s.2 := by
  induction h with
  | nil => exact fun s hs => absurd hs List.not_mem_nil
  | snoc _ hlink ih =>
      intro s hs
      rcases List.mem_append.mp hs with hs | hs
      · exact ih s hs
      · rw [List.mem_singleton.mp hs]
        exact hlink

/-- A trail has no more links than the table `parents`. -/
theorem Trail.length_le (h : j.Trail w steps g) (hnodup : (j.trailFiles steps).Nodup) :
    steps.length ≤ w.parents.size := by
  have hkeys : steps.map (·.1) ⊆ w.parents.entries.map (·.1) := by
    intro f hf
    obtain ⟨s, hs, rfl⟩ := List.mem_map.mp hf
    exact List.mem_map_of_mem (Table.mem_entries_of_get? (h.parent_of_mem s hs))
  have hle := (List.subperm_of_subset (List.nodup_cons.mp hnodup).2 hkeys).length_le
  rwa [List.length_map, List.length_map] at hle

theorem Trail.chain_eq (h : j.Trail w steps g) (hnodup : (j.trailFiles steps).Nodup) :
    Evidence.chain w.parents j.entry g = steps.map fun s => Evidence.ofLink s.1 s.2 := by
  have hlast : j.trailFiles steps = (j.trailFiles steps).dropLast ++ [g] :=
    (List.dropLast_append_getLast? _ h.getLast).symm
  have hseen : ∀ f ∈ (j.trailFiles steps).dropLast, f ∉ [g] := by
    intro f hf hmem
    rw [hlast] at hnodup
    exact (List.nodup_append.mp hnodup).2.2 f hf g List.mem_cons_self (List.mem_singleton.mp hmem)
  have hlen := h.length_le hnodup
  rw [Evidence.chain, h.back_eq hnodup _ _ hseen (by omega), List.reverse_reverse]

/-! ## Trails and hops: `depth` -/

/-- The hops of the known file `f`, as an integer. -/
def depth (w : Walk) (f : String) : Int := ((w.hops.get? f).getD 0 : Nat)

/-- By how much the link `s`, if it leads out of a barrel, is longer than one hop. -/
def excess (w : Walk) (s : String × ParentLink) : Int := depth w s.1 - depth w s.2.parent - 1

/-- Whether the link `s` leads out of a barrel: only imports stand on a line. -/
def isReexport (s : String × ParentLink) : Bool := s.2.line.isNone

/-- A link in `parents` comes from the push that gave its file the hops. -/
theorem Linked.offer (hw : j.Linked w) {f : String} {link : ParentLink} {hop : Nat}
    (hlink : w.parents.get? f = some link) (hhop : w.hops.get? f = some hop) :
    j.Offer w f hop link := by
  have hne : f ≠ j.entry := by
    rintro rfl
    exact nomatch hw.entry.symm.trans hlink
  obtain ⟨link', hlink', hoffer⟩ := hw.others f hop hhop hne
  cases hlink.symm.trans hlink'
  exact hoffer

/-- An import takes one hop. -/
theorem Linked.depth_of_import (hw : j.Linked w) {f : String} {link : ParentLink}
    (hlink : w.parents.get? f = some link) (hknown : ∃ hop, w.hops.get? f = some hop)
    (hline : isReexport (f, link) = false) : depth w f = depth w link.parent + 1 := by
  obtain ⟨hop, hhop⟩ := hknown
  cases hw.offer hlink hhop with
  | edge _ hp _ _ => simp [depth, hhop, hp]
  | name _ _ _ => exact nomatch hline

/-- Without shortcuts, a re-export takes one hop, too: `depth` goes up by one along every link. -/
theorem NoShortcut.depth_of_link (hshort : j.NoShortcut w) (hw : j.Linked w) {f : String}
    {link : ParentLink} (hlink : w.parents.get? f = some link)
    (hknown : ∃ hop, w.hops.get? f = some hop) : depth w f = depth w link.parent + 1 := by
  obtain ⟨hop, hhop⟩ := hknown
  cases hw.offer hlink hhop with
  | edge _ hp _ _ => simp [depth, hhop, hp]
  | name he ha hne =>
      obtain ⟨hb, hbhop, heq⟩ := hshort.hop_of_name he ha hne hhop
      rw [heq] at hhop
      simp [depth, hhop, hbhop]

/-- **How long a trail is.** It has as many links as its file has hops, less the `excess` of its
re-exports. By induction over the trail. -/
theorem Trail.depth_eq (h : j.Trail w steps g) (hw : j.Linked w)
    (hknown : ∀ f ∈ j.trailFiles steps, ∃ hop, w.hops.get? f = some hop) :
    depth w g = steps.length + ((steps.filter isReexport).map (excess w)).sum := by
  induction h with
  | nil => simp [depth, hw.start]
  | @snoc steps g link htrail hlink ih =>
      rw [trailFiles_snoc] at hknown
      have hparent := ih fun f hf => hknown f (List.mem_append_left _ hf)
      rw [List.filter_append, List.map_append, List.sum_append, List.length_append]
      cases hre : isReexport (g, link) with
      | true =>
          simp only [List.filter_cons, hre, List.filter_nil, List.map_cons, List.map_nil,
            List.sum_cons, List.sum_nil, List.length_singleton, excess, if_true]
          omega
      | false =>
          have hone := hw.depth_of_import hlink
            (hknown g (List.mem_append_right _ List.mem_cons_self)) hre
          simp only [List.filter_cons, hre, List.filter_nil, List.map_nil, List.sum_nil,
            List.length_singleton, Bool.false_eq_true, if_false]
          omega

/-- Without shortcuts, a trail has as many links as its file has hops. -/
theorem NoShortcut.depth_eq (hshort : j.NoShortcut w) (h : j.Trail w steps g) (hw : j.Linked w)
    (hknown : ∀ f ∈ j.trailFiles steps, ∃ hop, w.hops.get? f = some hop) :
    depth w g = steps.length := by
  have hzero : ∀ n ∈ (steps.filter isReexport).map (excess w), n = 0 := by
    intro n hn
    obtain ⟨s, hs, rfl⟩ := List.mem_map.mp hn
    have hmem := (List.mem_filter.mp hs).1
    have hone := hshort.depth_of_link hw (h.parent_of_mem s hmem)
      (hknown s.1 (List.mem_cons_of_mem _ (List.mem_map_of_mem hmem)))
    rw [excess]
    omega
  rw [h.depth_eq hw hknown, List.sum_eq_zero hzero, add_zero]

/-- A barrel is opened when another one, from which it takes a name, has been visited already and is
farther away than on the way through the first. -/
def barrelOpenedLate : Journey Id where
  graph :=
    { edges f := ((Table.ofList
        [("page", [⟨"barrel", some ["p"], .origin⟩, ⟨"near", none, .origin⟩]),
          ("barrel", [⟨"near", some ["p"], .origin⟩, ⟨"inner", some ["x"], .origin⟩]),
          ("inner", [⟨"x", some ["x"], .origin⟩]),
          ("near", [⟨"far", none, .origin⟩]),
          ("far", [⟨"inner", none, .origin⟩, ⟨"late", none, .origin⟩]),
          ("late", [⟨"barrel", none, .origin⟩])]).get? f).getD []
      surface f :=
        if f = "barrel" then ⟨.ofList [("p", ⟨"near", "p"⟩), ("x", ⟨"inner", "x"⟩)], [], [], true⟩
        else if f = "inner" then ⟨.ofList [("x", ⟨"x", "x"⟩)], [], [], true⟩
        else ⟨.empty, [], [f], false⟩
      resolve _ specifier := some specifier }
  entry := "page"
  facts := .empty
  fileCount := 7

/-- In `barrelOpenedLate`, the file `x` is visited at depth three, and its trail has four links. -/
theorem trail_longer_than_hops_barrelOpenedLate :
    barrelOpenedLate.walk.run.truncated = false ∧
      barrelOpenedLate.walk.run.hops.get? "x" = some 3 ∧
      (Evidence.chain barrelOpenedLate.walk.run.parents "page" "x").map Evidence.file =
        ["page", "near", "far", "inner"] := by
  decide +kernel

end PageReach.Journey
