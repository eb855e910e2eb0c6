import PageReach.Module.Resolver

/-!
# The ladder of strategies

A specifier that is not relative can stand for files in several places. The ladder has three rungs:
the alias `@/`, the path patterns, and the base directory. Each rung names places (`aliasPlaces`,
`patternPlaces`, `basePlaces`), and the first place with an indexed file should win (`firstAt`).

The alias is the only rung that keeps its specifiers to itself: what begins with `@/` and is in none
of the places for the alias is given up, even if a pattern or the base directory has a file for it
(`resolveByAliases_eq`, `resolve_climbs_ladder`).
-/

namespace PageReach.Resolver

open Text

variable {r : Resolver} {file specifier path target : String}

/-! ## Places: `ladder` -/

/-- The place of `path` below the base directory. -/
def basePlaces (r : Resolver) (path : String) : List String :=
  r.base?.toList.map (Path.join · path)

/-- The places that the alias `@/` stands for. -/
def aliasPlaces (r : Resolver) (specifier : String) : List String :=
  match afterPrefix? specifier "@/" with
  | none => []
  | some path => r.basePlaces path ++ r.index.sourceRoots.map (· ++ path)

/-- The place of `target`, which is relative to the base directory if there is one. -/
def targetPlace (r : Resolver) (target : String) : String :=
  match r.base? with
  | none | some "" => target
  | some base => Path.join base target

/-- The places that the path patterns name for `specifier`. -/
def patternPlaces (r : Resolver) (specifier : String) : List String :=
  (expandTargets specifier r.aliases.patterns).map r.targetPlace

/-- All places for a specifier that is not relative, in the order of the rungs. -/
def ladder (r : Resolver) (specifier : String) : List String :=
  r.aliasPlaces specifier ++ r.patternPlaces specifier ++ r.basePlaces specifier

/-- The indexed file at the first of the `places` that has one. -/
def firstAt (r : Resolver) (places : List String) : Option String :=
  places.findSome? r.index.lookup

@[simp] theorem firstAt_nil : r.firstAt [] = none := rfl

@[simp] theorem firstAt_append (places places' : List String) :
    r.firstAt (places ++ places') = (r.firstAt places).or (r.firstAt places') := by
  simp [firstAt]

/-! ## Rungs: `resolveByAliases` -/

theorem belowBase_eq (r : Resolver) (path : String) :
    r.belowBase path = r.firstAt (r.basePlaces path) := by
  cases h : r.base? <;> simp [belowBase, basePlaces, firstAt, h]

theorem belowSourceRoot_eq (r : Resolver) (path : String) :
    r.belowSourceRoot path = r.firstAt (r.index.sourceRoots.map (· ++ path)) := by
  simp [belowSourceRoot, firstAt, List.findSome?_map, Function.comp_def]

theorem byPattern_eq (r : Resolver) (specifier : String) :
    r.byPattern specifier = r.firstAt (r.patternPlaces specifier) := by
  simp only [byPattern, firstAt, patternPlaces, List.findSome?_map]
  rfl

/-- What is not relative climbs the `ladder`, but does not get past the alias. -/
theorem resolveByAliases_eq (hplain : startsWith specifier "." = false) :
    r.resolveByAliases file specifier =
      if startsWith specifier "@/" then r.firstAt (r.aliasPlaces specifier)
      else r.firstAt (r.ladder specifier) := by
  unfold resolveByAliases
  rw [if_neg (by simp [hplain])]
  cases halias : startsWith specifier "@/" with
  | false =>
      simp [afterPrefix?, halias, ladder, aliasPlaces, byPattern_eq, belowBase_eq]
  | true =>
      simp [afterPrefix?, halias, aliasPlaces, belowBase_eq, belowSourceRoot_eq]

theorem resolve_of_no_project (hproject : r.project = none) (hne : specifier ≠ "") :
    r.resolve file specifier = .ok (r.resolveByAliases file specifier) := by
  unfold resolve resolveVia
  rw [if_neg hne, hproject]
  rfl

/-- **The first place with a file wins, unless the alias keeps the specifier to itself.** Where no
configuration is looked for, a specifier that is not relative resolves without a fault. Only the file
at the first place of the ladder that has one comes out. For specifiers that do not begin with `@/`
it always does. For the others it does exactly if the places for the alias have a file, or if no
place has one. -/
theorem resolve_climbs_ladder (r : Resolver) (file specifier : String) (hproject : r.project = none)
    (hne : specifier ≠ "") (hplain : startsWith specifier "." = false) :
    ∃ found, r.resolve file specifier = .ok found ∧
      (∀ target, found = some target → r.firstAt (r.ladder specifier) = some target) ∧
      (startsWith specifier "@/" = false → found = r.firstAt (r.ladder specifier)) ∧
      (startsWith specifier "@/" = true → found = r.firstAt (r.aliasPlaces specifier)) ∧
      (found = r.firstAt (r.ladder specifier) ↔
        startsWith specifier "@/" = false ∨ r.firstAt (r.aliasPlaces specifier) ≠ none ∨
          r.firstAt (r.patternPlaces specifier ++ r.basePlaces specifier) = none) := by
  refine ⟨_, resolve_of_no_project hproject hne, ?_⟩
  rw [resolveByAliases_eq hplain]
  cases halias : startsWith specifier "@/" with
  | false => simp
  | true =>
      have hladder : r.firstAt (r.ladder specifier) = (r.firstAt (r.aliasPlaces specifier)).or
          (r.firstAt (r.patternPlaces specifier ++ r.basePlaces specifier)) := by
        simp [ladder]
      simp only [hladder, if_true]
      cases r.firstAt (r.aliasPlaces specifier) with
      | none => simp [eq_comm]
      | some target => simp

/-- Two patterns for one directory. One of them begins like the alias, the other one has a target
without files besides. -/
def patternsOfApp : Resolver where
  index := ⟨["app/x.ts"]⟩
  aliases := { patterns := .ofList [("@/*", ["app/*"]), ("~/*", ["lib/*", "app/*"])] }

/-- By the second of `patternsOfApp` the file is found, after a miss. -/
theorem resolve_climbs_ladder_after_miss :
    patternsOfApp.project = none ∧ "~/x" ≠ "" ∧ startsWith "~/x" "." = false ∧
      patternsOfApp.ladder "~/x" = ["lib/x", "app/x"] ∧
      patternsOfApp.resolve "app/y.ts" "~/x" = .ok (some "app/x.ts") := by
  have hplain : startsWith "~/x" "." = false := by decide
  obtain ⟨found, hfound, -, hclimbs, -⟩ :=
    resolve_climbs_ladder patternsOfApp "app/y.ts" "~/x" rfl (by decide) hplain
  have hfirst : patternsOfApp.firstAt (patternsOfApp.ladder "~/x") = some "app/x.ts" := by
    decide +kernel
  refine ⟨rfl, by decide, hplain, by decide +kernel, ?_⟩
  rw [hfound, hclimbs (by decide), hfirst]

/-- By the first of `patternsOfApp` it is not, though a place of the `ladder` has it. -/
theorem alias_hides_pattern :
    patternsOfApp.resolve "app/y.ts" "@/x" = .ok none ∧
      patternsOfApp.firstAt (patternsOfApp.patternPlaces "@/x") = some "app/x.ts" ∧
      patternsOfApp.firstAt (patternsOfApp.ladder "@/x") = some "app/x.ts" := by
  refine ⟨?_, by decide +kernel, by decide +kernel⟩
  have hmiss : patternsOfApp.resolveByAliases "app/y.ts" "@/x" = none := by decide +kernel
  rw [resolve_of_no_project rfl (by decide), hmiss]

end PageReach.Resolver
