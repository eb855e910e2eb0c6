import Mathlib.Data.List.Induction
import PageReach.Proofs.Walk.Completeness

/-!
# The nearest facts

A walk meets the facts of the files that it visits, one file after the other, each at the hops of
its file (`met`). What it keeps for each operation is the nearest of them (`Ended.best_eq`), and the
table of what it keeps has one entry for each operation that is met (`nearest_nearest`).
-/

namespace PageReach.Journey

variable {j : Journey Id} {w w' : Walk}

/-! ## What a walk meets: `met` -/

/-- The facts of the `visited` files with the hops of their files, in the order of the visits. -/
def met (j : Journey Id) (w : Walk) : List (Fact × Nat) :=
  w.visited.flatMap fun f => ((j.facts.get? f).getD []).map (·, (w.hops.get? f).getD 0)

/-- The nearest fact about each operation, as `Walk.mergeFact` keeps it. -/
def nearest (met : List (Fact × Nat)) : Table (Fact × Nat) :=
  met.foldl (fun best x => Walk.mergeFact x.2 best x.1) .empty

theorem met_same (hg : Grows w w') (hv : w'.visited = w.visited) : j.met w' = j.met w := by
  rw [met, met, hv]
  refine List.flatMap_congr fun f hf => ?_
  rw [hg.fixed f hf]

theorem met_visit (hw : j.Sound w) {hop : Nat} {f : String} {rest : List (Nat × String)}
    (hq : w.queue = (hop, f) :: rest) (hf : f ∉ w.visited) (facts : List Fact) :
    j.met (Walk.visit { w with queue := rest } f hop facts) =
      j.met w ++ ((j.facts.get? f).getD []).map (·, hop) := by
  show (w.visited ++ [f]).flatMap _ = _
  rw [List.flatMap_append, List.flatMap_singleton]
  congr 2
  show (·, (w.hops.get? f).getD 0) = _
  rw [hw.head_hops hq hf, Option.getD_some]

theorem Moves.best_eq (h : j.Moves j.start w) : w.best = nearest (j.met w) := by
  induction h with
  | refl => rfl
  | tail hmoves hmove ih =>
      have hgrows := hmove.grows
      cases hmove with
      | push _ =>
          rw [Walk.push_best, ih, met_same hgrows (Walk.push_visited _ _ _ _)]
      | opening _ =>
          rw [Walk.openBarrel_best, ih, met_same hgrows (Walk.openBarrel_visited _ _)]
      | takeUp _ _ _ _ =>
          rw [met_same hgrows rfl]
          exact ih
      | skip _ _ =>
          rw [met_same hgrows rfl]
          exact ih
      | visit hq hf _ =>
          rw [met_visit (sound_start.moves hmoves) hq hf, nearest, List.foldl_append,
            List.foldl_map, ← nearest, ← ih]
          rfl

/-- **A walk keeps the `nearest` of the facts that it meets.** -/
theorem Ended.best_eq (h : j.Ended w) : w.best = nearest (j.met w) := by
  cases h with
  | empty hm _ => exact hm.moves.best_eq
  | cut hm _ _ _ =>
      rw [met_same (.cut _ _) rfl]
      exact hm.moves.best_eq

theorem exists_met_iff {name : String} :
    (∃ x ∈ j.met w, x.1.name = name) ↔
      ∃ f ∈ w.visited, ∃ fact ∈ (j.facts.get? f).getD [], fact.name = name := by
  simp only [met, List.mem_flatMap, List.mem_map]
  constructor
  · rintro ⟨x, ⟨f, hf, fact, hfact, rfl⟩, hname⟩
    exact ⟨f, hf, fact, hfact, hname⟩
  · rintro ⟨f, hf, fact, hfact, hname⟩
    exact ⟨_, ⟨f, hf, fact, hfact, rfl⟩, hname⟩

/-! ## The table of nearest facts: `Nearest` -/

/-- A table with one entry for each operation that is `met`: a fact about it than which none is
nearer. -/
structure Nearest (met : List (Fact × Nat)) (best : Table (Fact × Nat)) : Prop where
  nodup : best.keys.Nodup
  entry : ∀ name x, best.get? name = some x → x ∈ met ∧ x.1.name = name
  least : ∀ x ∈ met, ∃ y, best.get? x.1.name = some y ∧ y.2 ≤ x.2

/-- What the table `best` holds, it holds under the name of the operation. -/
theorem Nearest.get?_of_mem_values {met : List (Fact × Nat)} {best : Table (Fact × Nat)}
    (h : Nearest met best) {x : Fact × Nat} (hx : x ∈ best.values) :
    best.get? x.1.name = some x := by
  obtain ⟨⟨key, y⟩, hmem, rfl⟩ := List.mem_map.mp hx
  have hget := Table.get?_of_mem_entries h.nodup hmem
  obtain ⟨-, hname⟩ := h.entry key y hget
  rw [hname]
  exact hget

theorem Nearest.insert {met : List (Fact × Nat)} {best : Table (Fact × Nat)} (h : Nearest met best)
    (x : Fact × Nat) (hx : ∀ y, best.get? x.1.name = some y → x.2 ≤ y.2) :
    Nearest (met ++ [x]) (best.insert x.1.name x) where
  nodup := Table.nodup_keys_insert h.nodup _ _
  entry name y hy := by
    by_cases hname : name = x.1.name
    · rw [hname, Table.get?_insert_self] at hy
      cases hy
      exact ⟨List.mem_append_right _ List.mem_cons_self, hname.symm⟩
    · rw [Table.get?_insert_of_ne _ hname] at hy
      obtain ⟨hmem, hy⟩ := h.entry name y hy
      exact ⟨List.mem_append_left _ hmem, hy⟩
  least y hy := by
    by_cases hname : y.1.name = x.1.name
    · rw [hname]
      refine ⟨x, Table.get?_insert_self _ _ _, ?_⟩
      rcases List.mem_append.mp hy with hy | hy
      · obtain ⟨z, hz, hle⟩ := h.least y hy
        exact Nat.le_trans (hx z (hname ▸ hz)) hle
      · rw [List.mem_singleton.mp hy]
    · rw [Table.get?_insert_of_ne _ hname]
      rcases List.mem_append.mp hy with hy | hy
      · exact h.least y hy
      · exact absurd (congrArg (·.1.name) (List.mem_singleton.mp hy)) hname

theorem Nearest.keep {met : List (Fact × Nat)} {best : Table (Fact × Nat)} (h : Nearest met best)
    {x y : Fact × Nat} (hy : best.get? x.1.name = some y) (hle : y.2 ≤ x.2) :
    Nearest (met ++ [x]) best where
  nodup := h.nodup
  entry name z hz := by
    obtain ⟨hmem, hz⟩ := h.entry name z hz
    exact ⟨List.mem_append_left _ hmem, hz⟩
  least z hz := by
    rcases List.mem_append.mp hz with hz | hz
    · exact h.least z hz
    · rw [List.mem_singleton.mp hz]
      exact ⟨y, hy, hle⟩

theorem Nearest.mergeFact {met : List (Fact × Nat)} {best : Table (Fact × Nat)}
    (h : Nearest met best) (x : Fact × Nat) :
    Nearest (met ++ [x]) (Walk.mergeFact x.2 best x.1) := by
  rw [Walk.mergeFact]
  cases hy : best.get? x.1.name with
  | none =>
      refine h.insert x fun y hy' => ?_
      rw [hy] at hy'
      exact nomatch hy'
  | some y =>
      dsimp only
      split
      · rename_i hlt
        refine h.insert x fun z hz => ?_
        cases hy.symm.trans hz
        exact Nat.le_of_lt hlt
      · rename_i hge
        exact h.keep hy (Nat.le_of_not_lt hge)

theorem nearest_nearest (met : List (Fact × Nat)) : Nearest met (nearest met) := by
  induction met using List.reverseRecOn with
  | nil => exact ⟨List.nodup_nil, nofun, nofun⟩
  | append_singleton met x ih =>
      rw [nearest, List.foldl_append]
      exact ih.mergeFact x

end PageReach.Journey
