import PageReach.Files.Disk
import PageReach.Proofs.Text.Split

/-!
# Places on a disk

An absolute path stands for a place: a row of names, one below the other. Places and their paths
determine each other.

* **Walks** (`walk`, `placeOf`, `collapse_eq_walkFrom`): a place is where a walk along the segments
  ends, and `collapse` gives it. To `join` is to walk on (`placeOf_join`).
* **Disks** (`steps_place`, `eq_of_follow?`, `mem_keys_of_entry?`): what is found on the way along
  the path of a place is the entry that the disk keeps for the place.
* **Texts** (`decode?_toUTF8`, `readText_of_file`, `readText_eq_notText_iff`): what `readText` gives
  for the bytes of a file.
-/

namespace PageReach

open Text

/-! ## Names: `IsName` -/

namespace Path

/-- `segment` can be the name of something in a directory. -/
structure IsName (segment : String) : Prop where
  ne_empty : segment ≠ ""
  ne_here : segment ≠ "."
  ne_up : segment ≠ ".."
  no_slash : '/' ∉ segment.toList

/-! ## Walks: `placeOf` -/

/-- One step of a walk on a disk, along one segment. At the root, `..` leads nowhere. -/
def walk (place : List String) (segment : String) : List String :=
  if segment = "" ∨ segment = "." then place
  else if segment = ".." then place.dropLast
  else place ++ [segment]

/-- Where a walk from `place` along segments ends. -/
def walkFrom (place segments : List String) : List String := segments.foldl walk place

/-- The place that `path` names on a disk. -/
def placeOf (path : String) : List String := walkFrom [] (split '/' path)

/-- The path of `place`. -/
def ofPlace (place : List String) : String := "/" ++ ofSegments place

variable {place segments : List String} {segment : String}

theorem isName_walk (hplace : ∀ s ∈ place, IsName s) (hslash : '/' ∉ segment.toList) :
    ∀ s ∈ walk place segment, IsName s := by
  unfold walk
  split
  · exact hplace
  · rename_i hplain
    rw [not_or] at hplain
    split
    · exact fun s hs => hplace s (List.dropLast_subset _ hs)
    · rename_i hup
      rw [List.forall_mem_append, List.forall_mem_singleton]
      exact ⟨hplace, hplain.1, hplain.2, hup, hslash⟩

theorem isName_walkFrom (hplace : ∀ s ∈ place, IsName s) (hslash : ∀ s ∈ segments, '/' ∉ s.toList) :
    ∀ s ∈ walkFrom place segments, IsName s := by
  induction segments generalizing place with
  | nil => exact hplace
  | cons segment segments ih =>
      obtain ⟨hsegment, hslash⟩ := List.forall_mem_cons.mp hslash
      exact ih (isName_walk hplace hsegment) hslash

/-- A place consists of names (`IsName`). -/
theorem isName_of_mem_placeOf {path : String} : ∀ s ∈ placeOf path, IsName s :=
  isName_walkFrom (by simp) fun _ => not_mem_of_mem_split

/-- `collapse` keeps the place that a walk has come to, turned round. -/
theorem pushSegment_reverse (h : ".." ∉ place) (segment : String) :
    pushSegment true place.reverse segment = (walk place segment).reverse ∧
      ".." ∉ walk place segment := by
  unfold pushSegment walk
  by_cases hskip : segment = "" ∨ segment = "."
  · simp [hskip, h]
  · rw [if_neg (by simpa using hskip), if_neg hskip]
    by_cases hup : segment = ".."
    · rw [if_pos hup, if_pos hup]
      refine ⟨?_, fun hmem => h (List.dropLast_subset _ hmem)⟩
      rcases List.eq_nil_or_concat place with rfl | ⟨front, last, rfl⟩
      · rfl
      · have hlast : last ≠ ".." := by
          rintro rfl
          simp at h
        rw [List.concat_eq_append, List.reverse_append, List.reverse_singleton,
          List.singleton_append, List.dropLast_concat]
        split <;> simp_all
    · rw [if_neg hup, if_neg hup]
      simp [h, Ne.symm hup]

/-- **Below an absolute root, `collapse` gives the place at which a walk ends.** -/
theorem collapse_eq_walkFrom (segments : List String) :
    collapse true segments = walkFrom [] segments := by
  have hfold (place : List String) (h : ".." ∉ place) :
      segments.foldl (pushSegment true) place.reverse = (walkFrom place segments).reverse := by
    induction segments generalizing place with
    | nil => rfl
    | cons segment segments ih =>
        obtain ⟨hpush, hnext⟩ := pushSegment_reverse h segment
        rw [List.foldl_cons, hpush]
        exact ih _ hnext
  rw [collapse]
  exact (congrArg List.reverse (hfold [] (by simp))).trans (List.reverse_reverse _)

theorem placed_eq (path : String) : placed path = ofPlace (placeOf path) := by
  rw [placed, collapse_eq_walkFrom]
  rfl

theorem split_append_slash (front back : String) :
    split '/' (front ++ "/" ++ back) = split '/' front ++ split '/' back := by
  simp [split, splitChars_append_sep]

theorem walkFrom_append (place segments more : List String) :
    walkFrom place (segments ++ more) = walkFrom (walkFrom place segments) more :=
  List.foldl_append

/-- To `join` a path to a directory is to walk along it from there. -/
theorem placeOf_join {base path : String} (h : startsWith path "/" = false) :
    placeOf (join base path) = walkFrom (placeOf base) (split '/' path) := by
  unfold join placeOf
  rw [if_neg (by simp [h])]
  split
  · rename_i hbase
    rw [Bool.or_eq_true, decide_eq_true_iff, endsWith_iff] at hbase
    rcases hbase with rfl | ⟨front, rfl⟩
    · rw [String.empty_append]
      rfl
    · have hempty : split '/' (front ++ "/") = split '/' front ++ [""] := by
        rw [← String.append_empty (s := front ++ "/"), split_append_slash]
        rfl
      rw [split_append_slash, hempty, walkFrom_append, walkFrom_append]
      rfl
  · rw [split_append_slash, walkFrom_append]

/-! ## Segments and texts: `ofSegments` -/

theorem ofSegments_eq_empty {segments : List String} (h : ∀ s ∈ segments, s ≠ "") :
    ofSegments segments = "" ↔ segments = [] := by
  cases segments with
  | nil => simp [ofSegments]
  | cons s segments =>
      have hs := h s List.mem_cons_self
      cases segments <;> simp [ofSegments, hs]

theorem split_ofSegments {segments : List String} (hne : segments ≠ [])
    (h : ∀ s ∈ segments, '/' ∉ s.toList) : split '/' (ofSegments segments) = segments := by
  rw [split, ofSegments, String.toList_intercalate, show "/".toList = ['/'] from rfl,
    splitChars_intercalate (by simpa using hne) (by simpa using h), List.map_map]
  simp [Function.comp_def]

end Path

/-! ## Places: `follow?` -/

namespace Disk

variable {d : Disk} {place : List String}

theorem steps_place (h : ∀ s ∈ place, Path.IsName s) :
    steps ("/" ++ Path.ofSegments place) = place := by
  have hsplit : split '/' ("/" ++ Path.ofSegments place) =
      "" :: split '/' (Path.ofSegments place) := by
    simp [split, splitChars]
  rw [steps, hsplit]
  by_cases hne : place = []
  · subst hne
    decide
  · rw [Path.split_ofSegments hne fun s hs => (h s hs).no_slash]
    simpa [List.filter_eq_self] using fun s hs => ⟨(h s hs).ne_empty, (h s hs).ne_here⟩

/-- Where no segment leads up, a path that `follow?` can follow leads to its place. -/
theorem eq_of_follow? {found : List String} (h : ∀ s ∈ place, Path.IsName s)
    (hfollow : d.follow? ("/" ++ Path.ofSegments place) = some found) : found = place := by
  have hfold (segments start : List String) (hs : ∀ s ∈ segments, Path.IsName s)
      (hf : segments.foldlM d.step? start = some found) : found = start ++ segments := by
    induction segments generalizing start with
    | nil => simpa using hf.symm
    | cons s segments ih =>
        rw [List.forall_mem_cons] at hs
        rw [List.foldlM_cons] at hf
        obtain ⟨next, hnext, hf⟩ := Option.bind_eq_some_iff.mp hf
        have hstep : next = start ++ [s] := by
          unfold step? at hnext
          split at hnext
          · simpa [hs.1.ne_up] using hnext.symm
          · cases hnext
        rw [ih next hs.2 hf, hstep, List.append_assoc, List.singleton_append]
  rw [follow?, steps_place h] at hfollow
  simpa using hfold place [] h hfollow

theorem mem_keys_of_entry? {e : Entry} (h : ∀ s ∈ place, Path.IsName s)
    (hentry : d.entry? ("/" ++ Path.ofSegments place) = some e) :
    Path.ofSegments place ∈ d.entries.keys := by
  obtain ⟨found, hfollow, hat⟩ := Option.bind_eq_some_iff.mp hentry
  rw [eq_of_follow? h hfollow] at hat
  obtain ⟨front, back, hsplit, -⟩ := List.lookup_eq_some_iff.mp hat
  rw [Table.keys, hsplit]
  simp

/-- To `join` nothing to a directory leads to the directory. -/
theorem entry?_join_empty (d : Disk) (root : String) : d.entry? (Path.join root "") = d.entry? root := by
  have hsteps : steps (Path.join root "") = steps root := by
    rw [Path.join, if_neg (by decide)]
    split
    · rw [String.append_empty]
    · simp [steps, split, splitChars_append_sep, splitChars]
  rw [Disk.entry?, Disk.entry?, follow?, follow?, hsteps]

/-! ## Texts: `readText` -/

theorem unifyLineEnds_of_not_mem {cs : List Char} (h : '\r' ∉ cs) : unifyLineEnds cs = cs := by
  induction cs with
  | nil => rfl
  | cons c cs ih =>
      rw [List.mem_cons, not_or] at h
      unfold unifyLineEnds
      split
      · rename_i heq
        exact absurd (List.cons.inj heq).1.symm h.1
      · rename_i heq
        exact absurd (List.cons.inj heq).1.symm h.1
      · rename_i heq
        cases heq
        rw [ih h.2]
      · rename_i heq
        cases heq

theorem decode?_toUTF8 {s : String} (h : '\r' ∉ s.toList) : decode? s.toUTF8 = some s := by
  have hbytes : String.fromUTF8? s.toUTF8 = some s := by
    simp only [String.fromUTF8?, String.toUTF8_eq_toByteArray, dif_pos s.isValidUTF8]
    rfl
  rw [decode?, hbytes, Option.map_some, unifyLineEnds_of_not_mem h, String.ofList_toList]

variable {path : String}

theorem decode?_eq_none_iff {bytes : ByteArray} : decode? bytes = none ↔ ¬ bytes.IsValidUTF8 := by
  rw [decode?, Option.map_eq_none_iff, String.fromUTF8?]
  split <;> simp [*]

theorem readText_of_file {source : String} (hzero : '\x00' ∉ path.toList)
    (hentry : d.entry? path = some (.file source.toUTF8)) (h : '\r' ∉ source.toList) :
    d.readText path = .ok source := by
  rw [readText, if_neg (mt List.contains_iff_mem.mp hzero), hentry]
  dsimp only
  rw [decode?_toUTF8 h]

theorem readText_of_not_isFile (h : d.isFile path = false) :
    d.readText path = .error .unusablePath ∨ d.readText path = .error .noFile := by
  unfold readText
  split
  · exact .inl rfl
  · split
    · next bytes hfile => simp [isFile, hfile] at h
    · exact .inr rfl

theorem readText_eq_notText_iff : d.readText path = .error .notText ↔
    '\x00' ∉ path.toList ∧ ∃ bytes, d.entry? path = some (.file bytes) ∧ ¬ bytes.IsValidUTF8 := by
  simp only [← decode?_eq_none_iff]
  unfold readText
  split
  · next hzero => simp_all
  · next hzero =>
      split
      · next bytes hfile => cases hdecode : decode? bytes <;> simp_all
      · next hfile => simp_all

theorem exists_bytes_of_readText {source : String} (h : d.readText path = .ok source) :
    ∃ bytes, d.entry? path = some (.file bytes) ∧ decode? bytes = some source := by
  unfold readText at h
  split at h
  · cases h
  · split at h
    · next bytes hfile =>
        refine ⟨bytes, hfile, ?_⟩
        split at h
        · next hdecode =>
            cases h
            exact hdecode
        · cases h
    · cases h

end Disk

end PageReach
