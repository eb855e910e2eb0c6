import Mathlib.Data.List.TakeWhile
import Mathlib.Logic.Relation
import PageReach.Module.Config
import PageReach.Proofs.Files.Looking

/-!
# The search for the nearest configuration

`nearestPathIn` looks into a directory, then into the one above it, until it finds a configuration file
or comes to the root of the repository. Two things can go wrong, and nothing else (`SearchFails`): a
path may be too long to be looked at, and the search may never come to the root.

* **Steps upward** (`length_directory_lt`, `directory_of_slashes`): `Path.directory` shortens a path
  unless it consists of slashes, and then it leaves the path as it is.
* **Fuel** (`searchUpward_eq`): with more fuel than characters the answer does not change any more, so
  a search that runs out of it goes on for ever.
* **Failures** (`nearestPathIn_stops_iff`): `nearestPathIn` stops exactly if the search fails. One from a
  relative path always comes to an end (`not_onlySlashes_of_climbs`).
-/

namespace PageReach

open Relation

/-! ## Steps upward: `Path.directory` -/

namespace Path

variable {path : String}

/-- `path` consists of slashes, of which there is at least one. -/
def OnlySlashes (path : String) : Prop := path ≠ "" ∧ ∀ c ∈ path.toList, c = '/'

theorem directory_of_slashes (h : ∀ c ∈ path.toList, c = '/') : directory path = path := by
  have hhead : path.toList.reverse.dropWhile (· ≠ '/') = path.toList.reverse := by
    cases hcs : path.toList.reverse with
    | nil => rfl
    | cons c cs =>
        have hc : c = '/' := h c (by rw [← List.mem_reverse, hcs]; exact List.mem_cons_self)
        rw [List.dropWhile_cons_of_neg (by simp [hc])]
  have htrimmed : path.toList.reverse.dropWhile (· = '/') = [] := by
    rw [List.dropWhile_eq_nil_iff]
    simpa using h
  rw [directory, hhead, htrimmed]
  simp

theorem length_directory_lt {c : Char} (hc : c ∈ path.toList) (hslash : c ≠ '/') :
    (directory path).length < path.length := by
  have hshort (p : Char → Bool) (cs : List Char) : (cs.dropWhile p).length ≤ cs.length :=
    (List.dropWhile_suffix p).length_le
  rw [directory, String.length_ofList, List.length_reverse, ← String.length_toList,
    ← @List.length_reverse _ path.toList]
  rw [← List.mem_reverse] at hc
  cases hcs : path.toList.reverse with
  | nil => simp [hcs] at hc
  | cons first cs =>
      by_cases hfirst : first = '/'
      · -- slashes at the end are taken off, and something is left before them
        have hrest : cs.dropWhile (· = '/') ≠ [] := by
          rw [ne_eq, List.dropWhile_eq_nil_iff]
          intro hall
          rw [hcs, List.mem_cons, hfirst] at hc
          exact hslash (by simpa using hall c (hc.resolve_left hslash))
        rw [List.dropWhile_cons_of_neg (by simp [hfirst]),
          List.dropWhile_cons_of_pos (by simp [hfirst]), if_neg (by simpa using hrest)]
        exact Nat.lt_succ_of_le (hshort _ cs)
      · rw [List.dropWhile_cons_of_pos (by simp [hfirst])]
        have hhead := hshort (· ≠ '/') cs
        split
        · exact Nat.lt_succ_of_le hhead
        · exact Nat.lt_succ_of_le ((hshort _ _).trans hhead)

/-- `directory` is a beginning of the path. -/
theorem directory_prefix (path : String) : (directory path).toList <+: path.toList := by
  have hsuffix (p q : Char → Bool) (cs : List Char) :
      (if ((cs.dropWhile p).dropWhile q).isEmpty then cs.dropWhile p
        else (cs.dropWhile p).dropWhile q) <:+ cs := by
    split
    · exact List.dropWhile_suffix p
    · exact (List.dropWhile_suffix q).trans (List.dropWhile_suffix p)
  rw [directory, String.toList_ofList, ← List.reverse_suffix, List.reverse_reverse]
  exact hsuffix _ _ _

end Path

namespace ProjectConfig

variable {d : Disk} {root directory a : String} {fuel : Nat}

/-! ## One directory: `pathIn` -/

/-- The paths at which `directory` may have its configuration. -/
def configPaths (root directory : String) : List String :=
  configNames.map (Path.join (Path.join root directory))

/-- There is no configuration in `directory`, as far as can be seen. -/
def Barren (d : Disk) (root directory : String) : Prop :=
  ∀ path ∈ configPaths root directory, ¬ d.Refuses path ∧ d.hasFile path = false

theorem pathIn_stops_iff :
    Stops (pathIn d root directory) ↔ Meets d.Refuses d.hasFile (configPaths root directory) :=
  stops_findM? Disk.leadsToFile_stops_iff Disk.leadsToFile_ok

theorem pathIn_ok {found : Option String} (h : pathIn d root directory = .ok found) :
    found = (configPaths root directory).find? d.hasFile :=
  eq_find?_of_findM? Disk.leadsToFile_ok h

theorem hasFile_of_pathIn {path : String} (h : pathIn d root directory = .ok (some path)) :
    d.hasFile path = true :=
  List.find?_some (pathIn_ok h).symm

theorem pathIn_eq_none_iff : pathIn d root directory = .ok none ↔ Barren d root directory := by
  constructor
  · intro h path hpath
    have hnone := List.find?_eq_none.mp (pathIn_ok h).symm
    refine ⟨fun hrefuses => ?_, by simpa using hnone path hpath⟩
    obtain ⟨front, back, hsplit⟩ := List.append_of_mem hpath
    have hstop : Stops (pathIn d root directory) := pathIn_stops_iff.mpr
      ⟨front, path, back, hsplit, fun p hp => by simpa using hnone p (by simp [hsplit, hp]), hrefuses⟩
    rw [h] at hstop
    exact not_stops_ok _ hstop
  · intro hbarren
    rcases stops_or_ok (pathIn d root directory) with hstop | ⟨found, hfound⟩
    · obtain ⟨front, path, back, hsplit, -, hrefuses⟩ := pathIn_stops_iff.mp hstop
      exact absurd hrefuses (hbarren path (by simp [hsplit])).1
    · rw [hfound, pathIn_ok hfound]
      congr 1
      exact List.find?_eq_none.mpr fun path hpath => by simpa using (hbarren path hpath).2

/-! ## The whole search: `searchUpward` -/

/-- A search from `directory` comes to `a`, as there is no configuration in those between. -/
def Climbs (d : Disk) (root : String) : (directory a : String) → Prop :=
  ReflTransGen fun a b => Barren d root a ∧ a ≠ "" ∧ b = Path.directory a

/-- The search for a configuration from `directory` on fails: in a directory to which it comes, a path is
met that the disk refuses, or it comes to the top of the disk, from where it never gets to the root of
the repository. -/
inductive SearchFails (d : Disk) (root directory : String) : Prop where
  | blocked {a : String} (hclimbs : Climbs d root directory a)
      (hmeets : Meets d.Refuses d.hasFile (configPaths root a))
  | endless {a : String} (hclimbs : Climbs d root directory a) (htop : Path.OnlySlashes a)
      (hbarren : Barren d root a)

theorem searchUpward_succ (d : Disk) (root : String) (fuel : Nat) (directory : String) :
    searchUpward d root (fuel + 1) directory =
      pathIn d root directory >>= fun found => match found with
        | some path => .ok (some path)
        | none =>
          if directory = "" then .ok none
          else searchUpward d root fuel (Path.directory directory) := Eq.refl _

theorem searchUpward_of_barren (h : Barren d root directory) (hne : directory ≠ "") :
    searchUpward d root (fuel + 1) directory =
      searchUpward d root fuel (Path.directory directory) := by
  rw [searchUpward_succ, pathIn_eq_none_iff.mpr h, ok_bind]
  exact if_neg hne

/-- If the search does not go on from `directory`, then it has found what is there. -/
theorem searchUpward_of_ends (h : ¬ (Barren d root directory ∧ directory ≠ "")) :
    searchUpward d root (fuel + 1) directory = pathIn d root directory := by
  rw [searchUpward_succ]
  cases hfound : pathIn d root directory with
  | error fault => rfl
  | ok found =>
      cases found with
      | some path => rfl
      | none =>
          have hempty : directory = "" := by
            by_contra hne
            exact h ⟨pathIn_eq_none_iff.mp hfound, hne⟩
          exact if_pos hempty

/-- At the top of the disk, `searchUpward` goes round in the same directory. -/
theorem searchUpward_of_onlySlashes (h : Barren d root directory) (htop : Path.OnlySlashes directory) :
    searchUpward d root fuel directory = .error .endlessSearch := by
  induction fuel with
  | zero => rfl
  | succ fuel ih =>
      rw [searchUpward_of_barren h htop.1, Path.directory_of_slashes htop.2, ih]

theorem length_directory_lt_of_not_onlySlashes (h : ¬ Path.OnlySlashes directory)
    (hne : directory ≠ "") : (Path.directory directory).length < directory.length := by
  obtain ⟨c, hc, hslash⟩ : ∃ c ∈ directory.toList, c ≠ '/' := by
    simpa [Path.OnlySlashes, hne] using h
  exact Path.length_directory_lt hc hslash

/-- **`searchUpward` does not depend on its fuel**, if there is more than the directory has characters. -/
theorem searchUpward_eq (h : directory.length < fuel) :
    searchUpward d root fuel directory = nearestPathIn d root directory := by
  have hsame (fuel fuel' : Nat) (directory : String) (h : directory.length < fuel)
      (h' : directory.length < fuel') :
      searchUpward d root fuel directory = searchUpward d root fuel' directory := by
    induction fuel generalizing directory fuel' with
    | zero => omega
    | succ fuel ih =>
        obtain ⟨fuel', rfl⟩ : ∃ n, fuel' = n + 1 := Nat.exists_eq_add_one.mpr (by omega)
        by_cases hgoes : Barren d root directory ∧ directory ≠ ""
        · obtain ⟨hbarren, hne⟩ := hgoes
          by_cases htop : Path.OnlySlashes directory
          · rw [searchUpward_of_onlySlashes hbarren htop, searchUpward_of_onlySlashes hbarren htop]
          · have hshort := length_directory_lt_of_not_onlySlashes htop hne
            rw [searchUpward_of_barren hbarren hne, searchUpward_of_barren hbarren hne]
            exact ih fuel' _ (by omega) (by omega)
        · rw [searchUpward_of_ends hgoes, searchUpward_of_ends hgoes]
  exact hsame _ _ _ h (Nat.lt_succ_self _)

theorem searchFails_iff : SearchFails d root directory ↔
    Meets d.Refuses d.hasFile (configPaths root directory) ∨
      Barren d root directory ∧ directory ≠ "" ∧
        (Path.OnlySlashes directory ∨ SearchFails d root (Path.directory directory)) := by
  constructor
  · intro h
    cases h with
    | blocked hclimbs hmeets =>
        rcases ReflTransGen.cases_head hclimbs with rfl | ⟨b, ⟨hbarren, hne, rfl⟩, hrest⟩
        · exact .inl hmeets
        · exact .inr ⟨hbarren, hne, .inr (.blocked hrest hmeets)⟩
    | endless hclimbs htop htopBarren =>
        rcases ReflTransGen.cases_head hclimbs with rfl | ⟨b, ⟨hbarren, hne, rfl⟩, hrest⟩
        · exact .inr ⟨htopBarren, htop.1, .inl htop⟩
        · exact .inr ⟨hbarren, hne, .inr (.endless hrest htop htopBarren)⟩
  · rintro (hmeets | ⟨hbarren, hne, htop | h⟩)
    · exact .blocked .refl hmeets
    · exact .endless .refl htop hbarren
    · cases h with
      | blocked hclimbs hmeets => exact .blocked (.head ⟨hbarren, hne, rfl⟩ hclimbs) hmeets
      | endless hclimbs htop htopBarren =>
          exact .endless (.head ⟨hbarren, hne, rfl⟩ hclimbs) htop htopBarren

/-- **`nearestPathIn` stops exactly if `SearchFails`.** -/
theorem nearestPathIn_stops_iff (d : Disk) (root directory : String) :
    Stops (nearestPathIn d root directory) ↔ SearchFails d root directory := by
  -- by the length of the directory, which gets smaller from step to step but for the top
  induction hn : directory.length using Nat.strongRecOn generalizing directory with
  | _ n ih =>
      rw [searchFails_iff, ← pathIn_stops_iff]
      by_cases hgoes : Barren d root directory ∧ directory ≠ ""
      · obtain ⟨hbarren, hne⟩ := hgoes
        have hreturns : ¬ Stops (pathIn d root directory) := by simp [pathIn_eq_none_iff.mpr hbarren]
        by_cases htop : Path.OnlySlashes directory
        · have hendless : nearestPathIn d root directory = .error .endlessSearch :=
            searchUpward_of_onlySlashes hbarren htop
          exact iff_of_true (hendless ▸ stops_error _) (.inr ⟨hbarren, hne, .inl htop⟩)
        · have hshort := length_directory_lt_of_not_onlySlashes htop hne
          rw [nearestPathIn, searchUpward_of_barren hbarren hne, searchUpward_eq hshort,
            ih _ (hn ▸ hshort) _ rfl]
          simp [hreturns, hbarren, hne, htop]
      · have hhere : ¬ (Barren d root directory ∧ directory ≠ "" ∧
            (Path.OnlySlashes directory ∨ SearchFails d root (Path.directory directory))) :=
          fun h => hgoes ⟨h.1, h.2.1⟩
        rw [or_iff_left hhere, nearestPathIn, searchUpward_of_ends hgoes]

/-- What `nearestPathIn` finds is a file. -/
theorem hasFile_of_nearestPathIn {path : String} (h : nearestPathIn d root directory = .ok (some path)) :
    d.hasFile path = true := by
  have hsearch (fuel : Nat) (directory : String)
      (h : searchUpward d root fuel directory = .ok (some path)) : d.hasFile path = true := by
    induction fuel generalizing directory with
    | zero => cases h
    | succ fuel ih =>
        rw [searchUpward_succ] at h
        obtain ⟨found, hfound, h⟩ := exists_ok_of_bind h
        cases found with
        | some other =>
            cases h
            exact hasFile_of_pathIn hfound
        | none =>
            dsimp only at h
            split at h
            · cases h
            · exact ih _ h
  exact hsearch _ _ h

/-- A search from a relative path never comes to the top of the disk: where it `Climbs` to is a
beginning of that path. -/
theorem not_onlySlashes_of_climbs (hclimbs : Climbs d root directory a)
    (hrelative : directory.toList.head? ≠ some '/') : ¬ Path.OnlySlashes a := by
  have hhead : a.toList.head? ≠ some '/' := by
    induction hclimbs with
    | refl => exact hrelative
    | @tail b _ _ hstep ih =>
        obtain ⟨-, -, rfl⟩ := hstep
        intro hslash
        obtain ⟨back, hback⟩ := Path.directory_prefix b
        rw [← hback, List.head?_append, hslash] at ih
        exact ih rfl
  rintro ⟨hne, hall⟩
  cases hcs : a.toList with
  | nil => exact hne (by rw [← String.toList_inj, hcs]; rfl)
  | cons c cs =>
      rw [hcs] at hhead hall
      exact hhead (by rw [hall c List.mem_cons_self]; rfl)

end ProjectConfig

end PageReach
