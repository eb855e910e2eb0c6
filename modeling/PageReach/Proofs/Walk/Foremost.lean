import PageReach.Proofs.Walk.Best
import PageReach.Proofs.Walk.Trails

/-!
# Where the nearest facts come from

A walk need not visit files in the order of their hops: a barrel that is opened late can lead to
files that are nearer than those visited before. So the nearest fact about an operation can be the
last one that is met. Whatever the order, what is kept comes from the *foremost* file (`Foremost`,
`Ended.foremost`): among the visited files with a fact about the operation it is the nearest, and
among several that are as near it is the one visited first. Of several facts in that file, the first
one is kept (`get?_mergeFacts_of_far`).
-/

namespace PageReach.Journey

variable {j : Journey Id} {w : Walk} {name f : String}

/-- The facts about operations in the file `f`. -/
def factsOf (j : Journey Id) (f : String) : List Fact := (j.facts.get? f).getD []

/-- There is a fact about the operation `name` in the file `f`. -/
def Mentions (j : Journey Id) (name f : String) : Prop := ∃ fact ∈ j.factsOf f, fact.name = name

/-- The fact `x` comes from the foremost of the visited files that have one about the operation. -/
structure Foremost (j : Journey Id) (w : Walk) (name f : String) (x : Fact × Nat) : Prop where
  visits : j.VisitsAt w f x.2
  fact : (j.factsOf f).find? (·.name = name) = some x.1
  least : ∀ g hop, j.VisitsAt w g hop → j.Mentions name g → x.2 ≤ hop
  first : ∃ front back, w.visited = front ++ f :: back ∧
    ∀ g ∈ front, ∀ hop, j.VisitsAt w g hop → j.Mentions name g → x.2 < hop

/-! ## One file after the other: `Walk.mergeFact` -/

theorem get?_mergeFact (best : Table (Fact × Nat)) (hop : Nat) (fact : Fact) :
    (Walk.mergeFact hop best fact).get? name =
      if fact.name = name ∧ ∀ x, best.get? name = some x → hop < x.2 then some (fact, hop)
      else best.get? name := by
  rw [Walk.mergeFact]
  by_cases hname : fact.name = name
  · subst hname
    cases hbest : best.get? fact.name with
    | none => simp
    | some x =>
        by_cases hlt : hop < x.2
        · simp [hlt]
        · simp [hlt, hbest]
  · have hne : name ≠ fact.name := fun h => hname h.symm
    simp only [hname, false_and, if_false]
    split
    · split
      · exact Table.get?_insert_of_ne _ hne _
      · rfl
    · exact Table.get?_insert_of_ne _ hne _

variable {facts : List Fact} {hop : Nat} {best : Table (Fact × Nat)}

theorem get?_mergeFacts_of_none (h : ∀ fact ∈ facts, fact.name ≠ name) :
    (facts.foldl (Walk.mergeFact hop) best).get? name = best.get? name := by
  induction facts generalizing best with
  | nil => rfl
  | cons fact facts ih =>
      simp only [List.forall_mem_cons] at h
      rw [List.foldl_cons, ih h.2, get?_mergeFact]
      simp [h.1]

/-- What is as near as the facts of a file is kept. -/
theorem get?_mergeFacts_of_near {x : Fact × Nat} (h : best.get? name = some x) (hle : x.2 ≤ hop) :
    (facts.foldl (Walk.mergeFact hop) best).get? name = some x := by
  induction facts generalizing best with
  | nil => exact h
  | cons fact facts ih =>
      apply ih
      rw [get?_mergeFact]
      simp [h, Nat.not_lt.mpr hle]

/-- If nothing as near is known in `best`, the first of a file's facts about the operation is
kept. -/
theorem get?_mergeFacts_of_far {fact : Fact} (hfact : facts.find? (·.name = name) = some fact)
    (hfar : ∀ x, best.get? name = some x → hop < x.2) :
    (facts.foldl (Walk.mergeFact hop) best).get? name = some (fact, hop) := by
  induction facts generalizing best with
  | nil => simp at hfact
  | cons head facts ih =>
      rw [List.foldl_cons]
      by_cases hname : head.name = name
      · obtain rfl : head = fact := by simpa [hname] using hfact
        apply get?_mergeFacts_of_near _ (Nat.le_refl hop)
        rw [get?_mergeFact, if_pos ⟨hname, hfar⟩]
      · apply ih
        · simpa [hname] using hfact
        · simpa [get?_mergeFact, hname] using hfar

/-! ## The foremost file: `Foremost` -/

theorem get?_nearest_eq_none_iff {met : List (Fact × Nat)} :
    (nearest met).get? name = none ↔ ∀ x ∈ met, x.1.name ≠ name := by
  constructor
  · intro hnone x hx hname
    obtain ⟨y, hy, -⟩ := (nearest_nearest met).least x hx
    simp [hname, hnone] at hy
  · intro h
    by_contra hsome
    obtain ⟨x, hx⟩ := Option.ne_none_iff_exists'.mp hsome
    obtain ⟨hmet, hname⟩ := (nearest_nearest met).entry name x hx
    exact h x hmet hname

/-- Of the facts that are met in files, one after the other, that of the foremost file is kept. -/
theorem exists_foremost {files : List String} {facts : String → List Fact} {hop : String → Nat}
    {x : Fact × Nat}
    (h : (nearest (files.flatMap fun f => (facts f).map (·, hop f))).get? name = some x) :
    ∃ front f back, files = front ++ f :: back ∧
      (facts f).find? (·.name = name) = some x.1 ∧ x.2 = hop f ∧
      (∀ g ∈ front, (∃ fact ∈ facts g, fact.name = name) → x.2 < hop g) ∧
      ∀ g ∈ back, (∃ fact ∈ facts g, fact.name = name) → x.2 ≤ hop g := by
  induction files using List.reverseRecOn generalizing x with
  | nil => simp [nearest] at h
  | append_singleton files g ih =>
      rw [List.flatMap_append, List.flatMap_singleton, nearest, List.foldl_append, List.foldl_map,
        ← nearest] at h
      -- a file that is not nearer changes nothing
      have keep {y : Fact × Nat} (hy : (nearest (files.flatMap fun f =>
          (facts f).map (·, hop f))).get? name = some y)
          (hfar : (∃ fact ∈ facts g, fact.name = name) → y.2 ≤ hop g) :
          ∃ front f back, files ++ [g] = front ++ f :: back ∧
            (facts f).find? (·.name = name) = some y.1 ∧ y.2 = hop f ∧
            (∀ g ∈ front, (∃ fact ∈ facts g, fact.name = name) → y.2 < hop g) ∧
            ∀ g ∈ back, (∃ fact ∈ facts g, fact.name = name) → y.2 ≤ hop g := by
        obtain ⟨front, f, back, rfl, hfact, hhop, hfront, hback⟩ := ih hy
        refine ⟨front, f, back ++ [g], by simp, hfact, hhop, hfront, ?_⟩
        intro g' hg'
        rcases List.mem_append.mp hg' with hg' | hg'
        · exact hback g' hg'
        · rw [List.mem_singleton.mp hg']
          exact hfar
      cases hfind : (facts g).find? (·.name = name) with
      | none =>
          have hnone : ∀ fact ∈ facts g, fact.name ≠ name := by simpa using hfind
          rw [get?_mergeFacts_of_none hnone] at h
          refine keep h ?_
          rintro ⟨fact, hfact, hname⟩
          exact absurd hname (hnone fact hfact)
      | some fact =>
          by_cases hnear : ∀ y, (nearest (files.flatMap fun f =>
              (facts f).map (·, hop f))).get? name = some y → hop g < y.2
          · rw [get?_mergeFacts_of_far hfind hnear] at h
            obtain rfl := Option.some.inj h
            refine ⟨files, g, [], rfl, hfind, rfl, ?_, by simp⟩
            rintro g' hg' ⟨fact', hfact', hname⟩
            have hmet : (fact', hop g') ∈ files.flatMap fun f => (facts f).map (·, hop f) :=
              List.mem_flatMap.mpr ⟨g', hg', List.mem_map_of_mem hfact'⟩
            obtain ⟨y, hy, hle⟩ := (nearest_nearest _).least _ hmet
            have hlt := hnear y (hname ▸ hy)
            exact Nat.lt_of_lt_of_le hlt hle
          · push Not at hnear
            obtain ⟨y, hy, hle⟩ := hnear
            rw [get?_mergeFacts_of_near hy hle] at h
            obtain rfl := Option.some.inj h
            exact keep hy fun _ => hle

/-- **What a walk keeps about an operation comes from the `Foremost` file.** -/
theorem Ended.foremost (h : j.Ended w) {x : Fact × Nat} (hx : w.best.get? name = some x) :
    ∃ f, j.Foremost w name f x := by
  have hat {g : String} {hop : Nat} (hg : j.VisitsAt w g hop) :
      g ∈ w.visited ∧ hop = (w.hops.get? g).getD 0 := by
    obtain ⟨hv, hhop⟩ := h.visitsAt_iff.mp hg
    simp [hv, hhop]
  rw [h.best_eq] at hx
  obtain ⟨front, f, back, hsplit, hfact, hhop, hfront, hback⟩ := exists_foremost hx
  have hf : f ∈ w.visited := by simp [hsplit]
  obtain ⟨n, hn⟩ := h.known hf
  refine ⟨f, h.visitsAt_iff.mpr ⟨hf, ?_⟩, hfact, ?_, front, back, hsplit, ?_⟩
  · simp [hhop, hn]
  · intro g hop hg hmentions
    obtain ⟨hv, rfl⟩ := hat hg
    rw [hsplit, List.mem_append, List.mem_cons] at hv
    rcases hv with hv | rfl | hv
    · exact Nat.le_of_lt (hfront g hv hmentions)
    · exact Nat.le_of_eq hhop
    · exact hback g hv hmentions
  · intro g hg hop hvisits hmentions
    obtain ⟨-, rfl⟩ := hat hvisits
    exact hfront g hg hmentions

theorem Ended.best_isSome_iff (h : j.Ended w) :
    (∃ x, w.best.get? name = some x) ↔ ∃ f ∈ w.visited, j.Mentions name f := by
  rw [← Option.ne_none_iff_exists', h.best_eq, ne_eq, get?_nearest_eq_none_iff]
  push Not
  exact exists_met_iff

/-! ## The entry -/

/-- Only `entry` is no hop away. -/
theorem Linked.hops_eq_zero_iff (h : j.Linked w) : w.hops.get? f = some 0 ↔ f = j.entry := by
  constructor
  · intro hf
    by_contra hne
    obtain ⟨link, -, hoffer⟩ := h.others f 0 hf hne
    generalize hzero : 0 = hop at hoffer
    cases hoffer with
    | edge _ _ _ _ => omega
    | name _ _ _ =>
        simp only [Walk.barrelHops] at hzero
        omega
  · rintro rfl
    exact h.start

/-- A walk that may visit any file visits its entry. -/
theorem Ended.entry_visited (h : j.Ended w) (hlimit : 0 < j.limit) : j.entry ∈ w.visited := by
  cases hvisited : w.visited with
  | nil =>
      cases h with
      | empty hm hq =>
          obtain ⟨hop, hhop⟩ := known_entry hm.moves
          simpa [hvisited] using hm.sound.visited_of_known hq hhop
      | cut _ _ _ hl =>
          simp only at hvisited
          simp only [hvisited, List.length_nil] at hl
          omega
  | cons g rest =>
      -- the trail of the first visited file goes nowhere but to the entry
      have hsplit : w.visited = [] ++ g :: rest := hvisited
      obtain ⟨steps, -, -, hsub⟩ := h.preceded.exists_trail h.nodup hsplit
      have hentry : j.entry ∈ [] ++ [g] := hsub List.mem_cons_self
      simp only [List.nil_append, List.mem_singleton] at hentry
      simp [hentry]

end PageReach.Journey
