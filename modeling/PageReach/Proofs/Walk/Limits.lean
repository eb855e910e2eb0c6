import PageReach.Proofs.Walk.Best
import PageReach.Proofs.Walk.Distance

/-!
# Limits of hops

Edges are followed below the limit of hops only, so a file that is reached by an edge is within the
limit. A name that is imported through a barrel takes two hops at once. So it can lead one hop
beyond the limit (`AskedAtLimit`), but not farther, and nothing else does
(`Linked.within_or_asked`).
-/

namespace PageReach.Journey

variable {j : Journey Id} {w : Walk} {f g : String} {hop : Nat}

/-- A file one hop before the limit has asked a barrel for a name that comes from `g`, and `g` is
linked to the barrel for that reason. -/
def AskedAtLimit (j : Journey Id) (w : Walk) (g : String) : Prop :=
  ∃ f e b n, f ∈ w.expanded ∧ w.hops.get? f = some (Walk.maxHops - 1) ∧ j.Asks f e b n (some g) ∧
    g ≠ b ∧ w.parents.get? g = some ⟨b, "re-export:" ++ n, none, some "barrel"⟩

theorem Linked.within_or_asked (h : j.Linked w) (hg : w.hops.get? g = some hop) :
    hop ≤ Walk.maxHops ∨ hop = Walk.maxHops + 1 ∧ j.AskedAtLimit w g := by
  by_cases hentry : g = j.entry
  · subst hentry
    cases hg.symm.trans h.start
    exact .inl (Nat.zero_le _)
  · obtain ⟨link, hlink, hoffer⟩ := h.others g hop hg hentry
    cases hoffer with
    | edge _ _ hnear _ => exact .inl hnear
    | @name f b n _ hop barrelHop e he ha hne =>
        have hnear := he.near
        by_cases hlimit : min (hop + Walk.barrelHops) (barrelHop + 1) ≤ Walk.maxHops
        · exact .inl hlimit
        · simp only [Walk.barrelHops] at hlimit ⊢
          have hhop : hop = Walk.maxHops - 1 := by omega
          refine .inr ⟨by omega, f, e, b, n, he.expanded, ?_, ha, hne, hlink⟩
          rw [he.hops, hhop]

theorem Ended.within_or_asked (h : j.Ended w) (hg : w.hops.get? g = some hop) :
    hop ≤ Walk.maxHops ∨ hop = Walk.maxHops + 1 ∧ j.AskedAtLimit w g := by
  obtain ⟨u, hm, hw⟩ := h.came
  rw [hw] at hg ⊢
  exact hm.moves.linked.within_or_asked hg

/-- What is kept in `best` about an operation has been met in a visited file at the hops of that
file. -/
theorem Ended.exists_visited_of_best (h : j.Ended w) {name : String} {x : Fact × Nat}
    (hx : w.best.get? name = some x) :
    ∃ f ∈ w.visited, x.1 ∈ (j.facts.get? f).getD [] ∧ w.hops.get? f = some x.2 := by
  rw [h.best_eq] at hx
  obtain ⟨hmet, -⟩ := (nearest_nearest _).entry name x hx
  obtain ⟨f, hf, hmem⟩ := List.mem_flatMap.mp hmet
  obtain ⟨fact, hfact, rfl⟩ := List.mem_map.mp hmem
  obtain ⟨u, hm, hw⟩ := h.came
  rw [hw] at hf ⊢
  obtain ⟨hop, hhop⟩ := hm.sound.known f hf
  refine ⟨f, hf, hfact, ?_⟩
  rw [hhop, Option.getD_some]

/-- Thirty files in a row, the last of which takes a name from a barrel. -/
def barrelAtLimit : Journey Id where
  graph :=
    { edges f :=
        if f = "29" then [⟨"barrel", some ["x"], .origin⟩]
        else ((Table.ofList ((List.range 29).map fun k =>
          (toString k, [(⟨toString (k + 1), none, .origin⟩ : Edge)]))).get? f).getD []
      surface f :=
        if f = "barrel" then ⟨.ofList [("x", ⟨"beyond", "x"⟩)], [], [], true⟩
        else ⟨.empty, [], [f], false⟩
      resolve _ specifier := some specifier }
  entry := "0"
  facts := .ofList [("beyond", [⟨"GetX", .query, "beyond"⟩])]
  fileCount := 32

/-- The file behind the barrel is visited at depth 31, and so is its operation kept. -/
theorem visits_beyond_limit_barrelAtLimit :
    (¬ ∀ f ∈ barrelAtLimit.walk.run.visited, ∀ hop,
      barrelAtLimit.walk.run.hops.get? f = some hop → hop ≤ Walk.maxHops) ∧
    ¬ ∀ name x, barrelAtLimit.walk.run.best.get? name = some x → x.2 ≤ Walk.maxHops := by
  have heval : let w := barrelAtLimit.walk.run
      (w.visited.contains "beyond", w.hops.get? "beyond", w.best.get? "GetX") =
        (true, some 31, some (⟨"GetX", .query, "beyond"⟩, 31)) := by
    decide +kernel
  simp only [Prod.mk.injEq, List.contains_iff_mem] at heval
  obtain ⟨hvisited, hhops, hbest⟩ := heval
  refine ⟨fun h => ?_, fun h => ?_⟩
  · exact absurd (h "beyond" hvisited 31 hhops) (by decide)
  · exact absurd (h "GetX" _ hbest) (by decide)

end PageReach.Journey
