import PageReach.Files.FileIndex
import PageReach.Proofs.Table

/-!
# Source roots

The source roots of an index are `src/` and the beginnings of its files that end in `/src/`. They
come in the order of the first files below them, and those of one file from the outermost inward.
Files are gone through in their order, so that a file is the first one below all the roots that it
adds.

* **Search** (`indexOf?_eq_find?`, `sourceRootsFrom_eq`): the loop over a file tries every place at
  which `/src/` occurs.
* **One file** (`mem_sourceRootsOf`, `pairwise_sourceRootsOf`): it gives the roots of the file, all
  of them, and the shorter ones first.
* **All files** (`Gathered`, `Gathered.concat`, `Gathered.foldl`): one more file keeps what has been
  gathered in order, and so do all of them.
-/

namespace PageReach.FileIndex

variable {u : FileIndex} {fs roots xs : List String} {file f g p : String} {i : Nat}

/-! ## The search for `/src/` -/

/-- The beginning of a path that ends in `/src/` with the slash at place `i`, if there is one. -/
def rootAt? (cs : List Char) (i : Nat) : Option String :=
  if "/src/".toList.isPrefixOf (cs.drop i) then some (String.ofList (cs.take (i + 5))) else none

/-- `indexOf?` finds the first place at which something occurs. -/
theorem indexOf?_eq_find? {needle : List Char} (h : needle ≠ []) (cs : List Char) :
    Text.indexOf? needle cs =
      (List.range cs.length).find? fun i => needle.isPrefixOf (cs.drop i) := by
  induction cs with
  | nil => simp [Text.indexOf?, h]
  | cons c cs ih =>
      rw [Text.indexOf?, ih, List.length_cons, List.range_succ_eq_map, List.find?_cons,
        List.drop_zero, List.find?_map]
      cases needle.isPrefixOf (c :: cs) <;> rfl

/-- **`sourceRootsFrom` comes to every place at which `/src/` occurs**, also where two of them share a
slash: it goes on one character behind the last one. Fuel for all the characters ahead is enough. -/
theorem sourceRootsFrom_eq {cs : List Char} {fuel start : Nat} (h : cs.length ≤ start + fuel) :
    sourceRootsFrom cs fuel start =
      (List.range' start (cs.length - start)).filterMap (rootAt? cs) := by
  induction fuel generalizing start with
  | zero =>
      have hnone : cs.length - start = 0 := by omega
      rw [hnone]
      rfl
  | succ fuel ih =>
      rw [sourceRootsFrom, indexOf?_eq_find? (by decide)]
      cases hfind : (List.range (cs.drop start).length).find? fun i =>
          "/src/".toList.isPrefixOf ((cs.drop start).drop i) with
      | none =>
          symm
          rw [List.filterMap_eq_nil_iff]
          intro i hi
          obtain ⟨hle, hlt⟩ := List.mem_range'_1.mp hi
          have hnot := List.find?_eq_none.mp hfind (i - start) (by simp; omega)
          rw [List.drop_drop, Nat.add_sub_cancel' hle] at hnot
          exact if_neg hnot
      | some i =>
          obtain ⟨hoccurs, hi, hbefore⟩ := List.find?_range_eq_some.mp hfind
          rw [List.mem_range, List.length_drop] at hi
          rw [List.drop_drop] at hoccurs
          -- nothing before the place, then the place itself, then what `ih` speaks of
          have hsplit : List.range' start (cs.length - start) =
              List.range' start i ++ (start + i) ::
                List.range' (start + i + 1) (cs.length - (start + i + 1)) := by
            rw [← List.range'_succ, List.range'_append_1]
            congr 1
            omega
          have hfront : (List.range' start i).filterMap (rootAt? cs) = [] := by
            rw [List.filterMap_eq_nil_iff]
            intro j hj
            obtain ⟨hle, hlt⟩ := List.mem_range'_1.mp hj
            have hnot := hbefore (j - start) (by omega)
            rw [List.drop_drop, Nat.add_sub_cancel' hle, Bool.not_eq_true'] at hnot
            exact if_neg (Bool.not_eq_true _ ▸ hnot)
          have hroot : rootAt? cs (start + i) = some (String.ofList (cs.take (start + i + 5))) :=
            if_pos hoccurs
          rw [hsplit, List.filterMap_append, hfront, List.nil_append,
            List.filterMap_cons_some hroot, ← ih (by omega)]

/-- `sourceRootsOf` tries every place of a file. -/
theorem sourceRootsOf_eq (file : String) :
    sourceRootsOf file = (List.range file.toList.length).filterMap (rootAt? file.toList) := by
  rw [sourceRootsOf, sourceRootsFrom_eq (by rw [String.length_toList]; omega), Nat.sub_zero,
    List.range_eq_range']

/-! ## The source roots of one file: `sourceRootsOf` -/

/-- A beginning of a file that ends in a directory `src` below another one. -/
def IsRootOf (file p : String) : Prop := (∃ front, p = front ++ "/src/") ∧ p.toList <+: file.toList

theorem take_of_occurs (h : "/src/".toList.isPrefixOf (file.toList.drop i) = true) :
    file.toList.take (i + 5) = file.toList.take i ++ "/src/".toList := by
  rw [List.isPrefixOf_iff_prefix, List.prefix_iff_eq_take] at h
  rw [List.take_add, h]
  rfl

theorem length_of_occurs (h : "/src/".toList.isPrefixOf (file.toList.drop i) = true) :
    (String.ofList (file.toList.take (i + 5))).length = i + 5 := by
  have hlength := congrArg List.length (take_of_occurs h)
  rw [List.length_append, List.length_take, List.length_take] at hlength
  change _ = _ + 5 at hlength
  rw [String.length_ofList, List.length_take]
  omega

/-- `sourceRootsOf` gives the roots of a file, all of them and nothing else. -/
theorem mem_sourceRootsOf : p ∈ sourceRootsOf file ↔ IsRootOf file p := by
  simp only [sourceRootsOf_eq, rootAt?, List.mem_filterMap, List.mem_range,
    Option.ite_none_right_eq_some, Option.some.injEq]
  constructor
  · rintro ⟨i, -, hoccurs, rfl⟩
    refine ⟨⟨String.ofList (file.toList.take i), ?_⟩, ?_⟩
    · rw [take_of_occurs hoccurs, String.ofList_append, String.ofList_toList]
    · rw [String.toList_ofList]
      exact List.take_prefix _ _
  · rintro ⟨⟨front, rfl⟩, back, hfile⟩
    rw [String.toList_append, List.append_assoc] at hfile
    refine ⟨front.toList.length, ?_, ?_, ?_⟩
    · rw [← hfile]
      simp
    · rw [← hfile, List.drop_left, List.isPrefixOf_iff_prefix]
      exact List.prefix_append _ _
    · rw [← hfile, ← List.append_assoc, ← String.toList_append, List.take_left' (by simp),
        String.ofList_toList]

theorem pairwise_sourceRootsOf (file : String) :
    (sourceRootsOf file).Pairwise fun p q => p.length < q.length := by
  rw [sourceRootsOf_eq, List.pairwise_filterMap]
  refine List.pairwise_lt_range.imp ?_
  intro i j hij p hp q hq
  simp only [rootAt?, Option.ite_none_right_eq_some, Option.some.injEq] at hp hq
  obtain ⟨hi, rfl⟩ := hp
  obtain ⟨hj, rfl⟩ := hq
  rw [length_of_occurs hi, length_of_occurs hj]
  omega

theorem nodup_sourceRootsOf (file : String) : (sourceRootsOf file).Nodup :=
  (pairwise_sourceRootsOf file).imp fun hlt => by
    rintro rfl
    exact Nat.lt_irrefl _ hlt

/-! ## Going through the files: `Gathered` -/

/-- Things that differ are added as far as they are not known yet. -/
theorem foldl_addNew (h : xs.Nodup) (known : List String) :
    xs.foldl addNew known = known ++ xs.filter (· ∉ known) := by
  induction xs generalizing known with
  | nil => simp
  | cons x xs ih =>
      obtain ⟨hx, hxs⟩ := List.nodup_cons.mp h
      rw [List.foldl_cons, ih hxs]
      by_cases hknown : x ∈ known
      · simp [addNew, hknown]
      · have hadd : addNew known x = known ++ [x] := by simp [addNew, hknown]
        have hrest : xs.filter (· ∉ known ++ [x]) = xs.filter (· ∉ known) := by
          refine List.filter_congr fun y hy => ?_
          have hne : y ≠ x := fun e => hx (e ▸ hy)
          simp [hne]
        rw [hadd, hrest, List.filter_cons_of_pos (by simpa using hknown),
          List.append_assoc, List.singleton_append]

/-- The first of the indexed files, by code points, that begins with `p`. -/
structure IsFirstBelow (u : FileIndex) (p file : String) : Prop where
  mem : file ∈ u.files
  below : p.toList <+: file.toList
  first : ∀ other ∈ u.files, p.toList <+: other.toList → file ≤ other

/-- The first file below `p` comes before that below `q`, or it is the same and `p` is shorter. -/
def Precedes (u : FileIndex) (p q : String) : Prop :=
  ∃ f g, u.IsFirstBelow p f ∧ u.IsFirstBelow q g ∧ (f < g ∨ f = g ∧ p.length < q.length)

/-- All roots of the indexed files but `src/`, each once, and in order. -/
structure Gathered (u : FileIndex) (roots : List String) : Prop where
  nodup : roots.Nodup
  mem : ∀ p, p ∈ roots ↔ ∃ file ∈ u.files, IsRootOf file p
  first : ∀ p ∈ roots, ∃ file, u.IsFirstBelow p file
  ordered : roots.Pairwise u.Precedes

theorem IsFirstBelow.concat (h : IsFirstBelow ⟨fs⟩ p g) (hlast : ∀ g ∈ fs, g < f) :
    IsFirstBelow ⟨fs ++ [f]⟩ p g where
  mem := List.mem_append_left _ h.mem
  below := h.below
  first other hother hbelow := by
    rcases List.mem_append.mp hother with hother | hother
    · exact h.first other hother hbelow
    · rw [List.mem_singleton.mp hother]
      exact Std.le_of_lt (hlast g h.mem)

/-- A file that comes after all others is the first one below the roots that it adds. -/
theorem Gathered.isFirstBelow_new (h : Gathered ⟨fs⟩ roots) (hp : IsRootOf f p) (hnew : p ∉ roots) :
    IsFirstBelow ⟨fs ++ [f]⟩ p f where
  mem := List.mem_append_right _ (List.mem_singleton.mpr rfl)
  below := hp.2
  first other hother hbelow := by
    rcases List.mem_append.mp hother with hother | hother
    · exact absurd ((h.mem p).mpr ⟨other, hother, hp.1, hbelow⟩) hnew
    · obtain rfl := List.mem_singleton.mp hother
      exact String.le_refl _

/-- One more file: what it adds comes after all the roots of the files before it. -/
theorem Gathered.concat (h : Gathered ⟨fs⟩ roots) (hlast : ∀ g ∈ fs, g < f) :
    Gathered ⟨fs ++ [f]⟩ (roots ++ (sourceRootsOf f).filter (· ∉ roots)) := by
  have hnew : ∀ p, p ∈ (sourceRootsOf f).filter (· ∉ roots) ↔ IsRootOf f p ∧ p ∉ roots := by
    intro p
    rw [List.mem_filter, mem_sourceRootsOf, decide_eq_true_iff]
  refine ⟨?_, ?_, ?_, ?_⟩
  · refine List.nodup_append.mpr ⟨h.nodup, (nodup_sourceRootsOf f).filter _, ?_⟩
    rintro p hp _ hq rfl
    exact ((hnew p).mp hq).2 hp
  · intro p
    simp only [List.mem_append, List.mem_singleton, hnew, h.mem, or_and_right, exists_or,
      exists_eq_left]
    constructor
    · exact Or.imp_right And.left
    · intro hp
      by_cases hold : ∃ file ∈ fs, IsRootOf file p
      · exact .inl hold
      · exact hp.imp_right fun hf => ⟨hf, hold⟩
  · intro p hp
    rcases List.mem_append.mp hp with hp | hp
    · obtain ⟨g, hg⟩ := h.first p hp
      exact ⟨g, hg.concat hlast⟩
    · obtain ⟨hroot, hnot⟩ := (hnew p).mp hp
      exact ⟨f, h.isFirstBelow_new hroot hnot⟩
  · refine List.pairwise_append.mpr ⟨h.ordered.imp ?_, ?_, ?_⟩
    · rintro p q ⟨g, g', hg, hg', horder⟩
      exact ⟨g, g', hg.concat hlast, hg'.concat hlast, horder⟩
    · refine ((pairwise_sourceRootsOf f).filter _).imp_of_mem ?_
      intro p q hp hq hlt
      obtain ⟨hp, hpnew⟩ := (hnew p).mp hp
      obtain ⟨hq, hqnew⟩ := (hnew q).mp hq
      exact ⟨f, f, h.isFirstBelow_new hp hpnew, h.isFirstBelow_new hq hqnew, .inr ⟨rfl, hlt⟩⟩
    · intro p hp q hq
      obtain ⟨g, hg⟩ := h.first p hp
      obtain ⟨hq, hqnew⟩ := (hnew q).mp hq
      exact ⟨g, f, hg.concat hlast, h.isFirstBelow_new hq hqnew, .inl (hlast g hg.mem)⟩

theorem not_isRootOf_src (file : String) : ¬ IsRootOf file "src/" := by
  rintro ⟨⟨front, hfront⟩, -⟩
  have hlength := congrArg String.length hfront
  rw [String.length_append] at hlength
  exact absurd hlength (by change 4 ≠ _ + 5; omega)

theorem foldl_sourceRootsOf (roots : List String) (f : String) :
    (sourceRootsOf f).foldl addNew ("src/" :: roots) =
      "src/" :: (roots ++ (sourceRootsOf f).filter (· ∉ roots)) := by
  rw [foldl_addNew (nodup_sourceRootsOf f), List.cons_append]
  congr 2
  refine List.filter_congr fun p hp => ?_
  have hne : p ≠ "src/" := by
    rintro rfl
    exact not_isRootOf_src f (mem_sourceRootsOf.mp hp)
  simp [hne]

/-- File by file: what has been gathered from the files before is completed by the rest of them. -/
theorem Gathered.foldl {rest : List String} (h : Gathered ⟨fs⟩ roots)
    (hsorted : (fs ++ rest).Pairwise (· < ·)) :
    ∃ all, rest.foldl (fun known f => (sourceRootsOf f).foldl addNew known) ("src/" :: roots) =
      "src/" :: all ∧ Gathered ⟨fs ++ rest⟩ all := by
  induction rest generalizing fs roots with
  | nil => exact ⟨roots, rfl, by rwa [List.append_nil]⟩
  | cons f rest ih =>
      have hlast : ∀ g ∈ fs, g < f := fun g hg =>
        (List.pairwise_append.mp hsorted).2.2 g hg f List.mem_cons_self
      rw [List.append_cons] at hsorted ⊢
      rw [List.foldl_cons, foldl_sourceRootsOf]
      exact ih (h.concat hlast) hsorted

theorem gathered_nil : Gathered ⟨[]⟩ [] where
  nodup := List.nodup_nil
  mem p := by simp
  first p hp := by cases hp
  ordered := List.Pairwise.nil

theorem exists_gathered (h : u.files.Pairwise (· < ·)) :
    ∃ roots, u.sourceRoots = "src/" :: roots ∧ Gathered u roots := by
  rw [sourceRoots, List.foldl_flatMap]
  exact gathered_nil.foldl h

/-- **The source roots of an index** are `src/` and then, each once, the texts ending in `/src/` with
which indexed files begin. They are in the order of the first files below them, and roots with the
same first file in the order of their lengths. Of two directories `src`, one right in the other, both
are roots. -/
theorem sourceRoots_by_first_file (paths : List String) :
    ∃ roots, (ofPaths paths).sourceRoots = "src/" :: roots ∧ ("src/" :: roots).Nodup ∧
      (∀ p, p ∈ roots ↔ (∃ front, p = front ++ "/src/") ∧
        ∃ file ∈ (ofPaths paths).files, p.toList <+: file.toList) ∧
      roots.Pairwise (ofPaths paths).Precedes ∧
      ∀ front back, front ++ "/src/src/" ++ back ∈ (ofPaths paths).files →
        front ++ "/src/" ∈ roots ∧ front ++ "/src/src/" ∈ roots := by
  obtain ⟨roots, hroots, h⟩ := exists_gathered (u := ofPaths paths) (pairwise_sortedSet _)
  refine ⟨roots, hroots, ?_, ?_, h.ordered, ?_⟩
  · refine List.nodup_cons.mpr ⟨?_, h.nodup⟩
    intro hmem
    obtain ⟨file, -, hfile⟩ := (h.mem _).mp hmem
    exact not_isRootOf_src file hfile
  · intro p
    rw [h.mem]
    constructor
    · rintro ⟨file, hfile, hends, hbelow⟩
      exact ⟨hends, file, hfile, hbelow⟩
    · rintro ⟨hends, file, hfile, hbelow⟩
      exact ⟨file, hfile, hends, hbelow⟩
  · intro front back hfile
    have houter : IsRootOf (front ++ "/src/src/" ++ back) (front ++ "/src/") :=
      ⟨⟨front, rfl⟩, "src/".toList ++ back.toList, by simp⟩
    have hinner : IsRootOf (front ++ "/src/src/" ++ back) (front ++ "/src/src/") :=
      ⟨⟨front ++ "/src", by rw [String.append_assoc]; rfl⟩, back.toList, by simp⟩
    exact ⟨(h.mem _).mpr ⟨_, hfile, houter⟩, (h.mem _).mpr ⟨_, hfile, hinner⟩⟩

example : sourceRoots ⟨["a/src/src/b", "c/src/b"]⟩ =
    ["src/", "a/src/", "a/src/src/", "c/src/"] := by
  decide

end PageReach.FileIndex
