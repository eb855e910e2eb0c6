import PageReach.Files.FileIndex
import PageReach.Proofs.Files.Relative
import PageReach.Proofs.Table

/-!
# Looking up files in the index

An index holds relative forms, so looking up an indexed file gives the file itself. Any other path
is looked up by its relative form: the form itself comes first, then what completes its stem, then
what completes the whole of it.

* **Stems** (`IsStem`, `isStem_stem`): a stem is what stands before the longest of the `endings`.
* **Candidates** (`Completes`, `lookup_eq`): a stem is completed by an extension, or by an index
  file with an extension. `lookup` takes the first candidate that is indexed.
* **Indexes** (`mem_files_ofPaths`, `lookup_of_mem_files`): what `ofPaths` holds, and that it is
  found.
-/

namespace PageReach.FileIndex

open Text PageReach.Path

variable {u : FileIndex} {path file base r f : String}

/-! ## Stems: `stem` -/

/-- The endings that a `stem` is without. -/
def endings : List String := ".d.ts" :: extensions

/-- What stands before the longest of the `endings` that a file has; all of the file if it has
none. -/
inductive IsStem (file : String) : String → Prop where
  | cut {stem ending : String} (hending : ending ∈ endings) (hfile : file = stem ++ ending)
      (hlongest : ∀ other ∈ endings, ∀ front, file = front ++ other → other.length ≤ ending.length) :
      IsStem file stem
  | whole (hnone : ∀ ending ∈ endings, ∀ front, file ≠ front ++ ending) : IsStem file file

theorem IsStem.unique {stem stem' : String} (h : IsStem file stem) (h' : IsStem file stem') :
    stem = stem' := by
  cases h with
  | cut hending hfile hlongest =>
      cases h' with
      | @cut _ other hother hfile' hlongest' =>
          have hlength := Nat.le_antisymm (hlongest' _ hending _ hfile) (hlongest _ hother _ hfile')
          rw [hfile] at hfile'
          have hchars := congrArg String.toList hfile'
          rw [String.toList_append, String.toList_append] at hchars
          exact String.toList_inj.mp
            (List.append_inj_left' hchars (by simpa only [String.length_toList] using hlength))
      | whole hnone => exact absurd hfile (hnone _ hending _)
  | whole hnone =>
      cases h' with
      | cut hending hfile hlongest => exact absurd hfile (hnone _ hending _)
      | whole => rfl

theorem stem_eq (h : '\n' ∉ file.toList) :
    stem file = (endings.findSome? (beforeSuffix? file)).getD file := by
  have hline : endsWith file "\n" = false := by
    rw [Bool.eq_false_iff]
    intro hends
    obtain ⟨front, rfl⟩ := endsWith_iff.mp hends
    simp at h
  unfold stem
  rw [hline, ← endings, if_neg Bool.false_ne_true]
  dsimp only
  cases endings.findSome? (beforeSuffix? file) with
  | none => rfl
  | some front => simp

/-- Of two endings of one file, only `.d.ts` can be longer than the other. -/
theorem length_le_of_extensions {ending other front front' : String} (hending : ending ∈ extensions)
    (hother : other ∈ extensions) (hfile : file = front ++ ending) (hfile' : file = front' ++ other) :
    other.length ≤ ending.length := by
  have htable : ∀ e ∈ extensions, ∀ o ∈ extensions, e.toList <:+ o.toList → o.length ≤ e.length := by
    decide
  have hends (front back : String) : back.toList <:+ (front ++ back).toList :=
    ⟨front.toList, String.toList_append.symm⟩
  rcases Nat.le_total other.length ending.length with hle | hle
  · exact hle
  · apply htable ending hending other hother
    apply List.suffix_of_suffix_length_le (hfile ▸ hends front ending) (hfile' ▸ hends front' other)
    simpa only [String.length_toList] using hle

theorem isStem_stem (h : '\n' ∉ file.toList) : IsStem file (stem file) := by
  rw [stem_eq h, endings, List.findSome?_cons]
  cases hlong : beforeSuffix? file ".d.ts" with
  | some front =>
      have hfile := beforeSuffix?_eq_some_iff.mp hlong
      have htable : ∀ e ∈ endings, e.length ≤ ".d.ts".length := by decide
      exact .cut List.mem_cons_self hfile fun other hother _ _ => htable other hother
  | none =>
      have hnot (front : String) : file ≠ front ++ ".d.ts" := by
        intro hfile
        rw [beforeSuffix?_eq_some_iff.mpr hfile] at hlong
        cases hlong
      cases hfind : extensions.findSome? (beforeSuffix? file) with
      | some front =>
          obtain ⟨ending, hending, hfront⟩ := List.exists_of_findSome?_eq_some hfind
          have hfile := beforeSuffix?_eq_some_iff.mp hfront
          refine .cut (List.mem_cons_of_mem _ hending) hfile fun other hother front' hfile' => ?_
          rcases List.mem_cons.mp hother with rfl | hother
          · exact absurd hfile' (hnot front')
          · exact length_le_of_extensions hending hother hfile hfile'
      | none =>
          refine .whole fun ending hending front hfile => ?_
          rcases List.mem_cons.mp hending with rfl | hending
          · exact hnot front hfile
          · have hnone := List.findSome?_eq_none_iff.mp hfind ending hending
            rw [beforeSuffix?_eq_some_iff.mpr hfile] at hnone
            cases hnone

/-! ## Candidates: `variants` -/

/-- `file` is `base` with an extension, or an index file below it. -/
def Completes (base file : String) : Prop :=
  ∃ ext ∈ extensions, file = base ++ ext ∨ file = base ++ "/index" ++ ext

theorem mem_variants : f ∈ variants base ↔ Completes base f := by
  simp only [variants, List.mem_append, List.mem_map, Completes, eq_comm, exists_or, and_or_left]

/-- `lookup` need not tell the stem apart from a whole that is its own stem. -/
theorem lookup_eq (h : relative? path = some r) :
    u.lookup path = (r :: (variants (stem r) ++ variants r)).find? u.contains := by
  rw [lookup, h, Option.bind_some, candidates, List.find?_cons, List.find?_cons]
  split
  · rfl
  · split
    · rename_i hstem
      rw [hstem, List.flatMap_singleton, List.find?_append, Option.or_self]
    · simp

theorem lookup_of_mem (h : relative? path = some r) (hr : r ∈ u.files) : u.lookup path = some r := by
  have hcontains : u.contains r = true := List.contains_iff_mem.mpr hr
  rw [lookup_eq h, List.find?_cons, hcontains]

theorem lookup_of_not_mem (h : relative? path = some r) (hr : r ∉ u.files) :
    u.lookup path =
      ((variants (stem r)).find? u.contains).or ((variants r).find? u.contains) := by
  have hcontains : u.contains r = false := by
    rw [Bool.eq_false_iff]
    exact fun hmem => hr (List.contains_iff_mem.mp hmem)
  rw [lookup_eq h, List.find?_cons, hcontains, List.find?_append]

theorem find?_variants_eq_none_iff :
    (variants base).find? u.contains = none ↔ ∀ f, Completes base f → f ∉ u.files := by
  rw [List.find?_eq_none]
  simp only [mem_variants, contains, List.contains_iff_mem]

theorem lookup_eq_none_iff (h : relative? path = some r) :
    u.lookup path = none ↔
      r ∉ u.files ∧ ∀ f, Completes (stem r) f ∨ Completes r f → f ∉ u.files := by
  by_cases hr : r ∈ u.files
  · simp [lookup_of_mem h hr, hr]
  · rw [lookup_of_not_mem h hr, Option.or_eq_none_iff, find?_variants_eq_none_iff,
      find?_variants_eq_none_iff]
    simp only [hr, not_false_eq_true, true_and, or_imp, forall_and]

/-- What completes the `stem` is preferred to what completes the whole. -/
theorem lookup_of_completes_stem (h : relative? path = some r) (hr : r ∉ u.files)
    (hf : f ∈ u.files) (hstem : Completes (stem r) f) :
    ∃ g ∈ u.files, Completes (stem r) g ∧ u.lookup path = some g := by
  rw [lookup_of_not_mem h hr]
  cases hfind : (variants (stem r)).find? u.contains with
  | none => exact absurd hf (find?_variants_eq_none_iff.mp hfind f hstem)
  | some g =>
      have hg : g ∈ u.files := List.contains_iff_mem.mp (List.find?_some hfind)
      exact ⟨g, hg, mem_variants.mp (List.mem_of_find?_eq_some hfind), rfl⟩

theorem mem_of_lookup (h : u.lookup path = some f) : f ∈ u.files := by
  obtain ⟨r, -, hr⟩ := Option.bind_eq_some_iff.mp h
  exact List.contains_iff_mem.mp (List.find?_some hr)

theorem lookup_congr {path' : String} (h : relative? path = relative? path') :
    u.lookup path = u.lookup path' := by
  rw [lookup, lookup, h]

/-! ## Indexes of paths: `ofPaths` -/

variable {paths : List String}

theorem mem_files_ofPaths :
    f ∈ (ofPaths paths).files ↔ ∃ path ∈ paths, relative? path = some f := by
  rw [ofPaths, mem_sortedSet, List.mem_filterMap]

/-- Indexed files are their own relative forms, by `relative?_of_relative?`. -/
theorem relative?_of_mem_files (h : f ∈ (ofPaths paths).files) : relative? f = some f := by
  obtain ⟨path, -, hpath⟩ := mem_files_ofPaths.mp h
  exact relative?_of_relative? hpath

/-- Indexed files are found under their own names. -/
theorem lookup_of_mem_files (h : f ∈ (ofPaths paths).files) : (ofPaths paths).lookup f = some f :=
  lookup_of_mem (relative?_of_mem_files h) h

theorem isStem_of_relative? (hline : '\n' ∉ path.toList) (h : relative? path = some r) :
    IsStem r (stem r) := by
  apply isStem_stem
  intro hmem
  rcases mem_of_relative? h hmem with hslash | ⟨hpath, -⟩
  · exact absurd hslash (by decide)
  · exact hline hpath

/-- **A path is looked up by its relative form.** The files of an index are their own relative forms and
are found under their own names. For any other path, the first of a row of candidates is found: the
relative form, what completes its stem, what completes the whole of it. -/
theorem lookup_by_relative_form (paths : List String) (path : String) (hline : '\n' ∉ path.toList) :
    (ofPaths paths).files.Pairwise (· < ·) ∧
    (∀ f, f ∈ (ofPaths paths).files ↔ ∃ given ∈ paths, relative? given = some f) ∧
    (∀ f ∈ (ofPaths paths).files, relative? f = some f ∧ (ofPaths paths).lookup f = some f) ∧
    (∀ f, (ofPaths paths).lookup path = some f →
      f ∈ (ofPaths paths).files ∧ (ofPaths paths).lookup f = some f) ∧
    (∀ other, relative? other = relative? path →
      (ofPaths paths).lookup other = (ofPaths paths).lookup path) ∧
    ((ofPaths paths).lookup path = none ↔
      relative? path = none ∨ ∃ r stem, relative? path = some r ∧ IsStem r stem ∧
        r ∉ (ofPaths paths).files ∧
        ∀ f, Completes stem f ∨ Completes r f → f ∉ (ofPaths paths).files) ∧
    ∀ r stem, relative? path = some r → IsStem r stem →
      (r ∈ (ofPaths paths).files → (ofPaths paths).lookup path = some r) ∧
      (r ∉ (ofPaths paths).files → ∀ f ∈ (ofPaths paths).files, Completes stem f →
        ∃ g ∈ (ofPaths paths).files, Completes stem g ∧ (ofPaths paths).lookup path = some g) ∧
      (ofPaths paths).lookup path =
        (r :: (variants stem ++ variants r)).find? (ofPaths paths).contains := by
  refine ⟨pairwise_sortedSet _, fun f => mem_files_ofPaths, fun f hf => ?_, fun f hf => ?_,
    fun other h => lookup_congr h, ?_, fun r stem hr h => ?_⟩
  · exact ⟨relative?_of_mem_files hf, lookup_of_mem_files hf⟩
  · exact ⟨mem_of_lookup hf, lookup_of_mem_files (mem_of_lookup hf)⟩
  · cases hr : relative? path with
    | none => simp [lookup, hr]
    | some r =>
        have hstem := isStem_of_relative? hline hr
        rw [lookup_eq_none_iff hr]
        constructor
        · exact fun hnone => .inr ⟨r, stem r, rfl, hstem, hnone⟩
        · rintro (hnone | ⟨r', stem', hr', hstem', hnone⟩)
          · cases hnone
          · cases hr'
            exact hstem.unique hstem' ▸ hnone
  · obtain rfl := (isStem_of_relative? hline hr).unique h
    exact ⟨lookup_of_mem hr, fun hnot f hf => lookup_of_completes_stem hr hnot hf, lookup_eq hr⟩

theorem lookup_by_relative_form_of_stem :
    '\n' ∉ "./src//a.js".toList ∧
      (ofPaths ["src/a.js.ts", "lib/../src/a.ts"]).lookup "./src//a.js" = some "src/a.ts" := by
  have hline : '\n' ∉ "./src//a.js".toList := by decide
  have hform : relative? "./src//a.js" = some "src/a.js" := by
    rw [relative?_eq, segments_of_not_mem (by decide)]
    decide
  have hstem : IsStem "src/a.js" "src/a" :=
    (show stem "src/a.js" = "src/a" by decide) ▸ isStem_of_relative? hline hform
  obtain ⟨-, hfiles, -, -, -, -, hfinds⟩ :=
    lookup_by_relative_form ["src/a.js.ts", "lib/../src/a.ts"] "./src//a.js" hline
  have hother : relative? "src/a.js.ts" = some "src/a.js.ts" := by
    rw [relative?_eq, segments_of_not_mem (by decide)]
    decide
  have hsource : relative? "lib/../src/a.ts" = some "src/a.ts" := by
    rw [relative?_eq, segments_of_not_mem (by decide)]
    decide
  have hmem : "src/a.ts" ∈ (ofPaths ["src/a.js.ts", "lib/../src/a.ts"]).files :=
    (hfiles _).mpr ⟨"lib/../src/a.ts", by simp, hsource⟩
  have hwhole : "src/a.js" ∉ (ofPaths ["src/a.js.ts", "lib/../src/a.ts"]).files := by
    rw [hfiles]
    simp [hother, hsource]
  refine ⟨hline, ?_⟩
  rw [(hfinds _ _ hform hstem).2.2]
  simp [variants, extensions, contains, hwhole, hmem]

end PageReach.FileIndex
