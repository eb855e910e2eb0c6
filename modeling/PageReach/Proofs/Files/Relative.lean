import PageReach.Proofs.Files.Place

/-!
# The relative form of a path

A path is worked off segment by segment from the root: a name leads down, `..` leads up, and empty
segments and `.` lead nowhere. The relative form of a path is the row of names at which this walk ends;
there is none if the walk ever leaves the root, or ends there.

    relative? path = (walk? (segments path)).bind fun place =>
      if place = [] then none else some (ofSegments place)

The relative form is found by another way round: the path is collapsed as a whole, where `..` may pile
up at the front, and what begins with `..` is refused afterwards. So a way out in the middle of a path
has to be seen at the front in the end.
-/

namespace PageReach.Path

open Text

variable {path text r segment : String} {place place' done : List String} {c : Char}

/-! ## The walk: `walk?` -/

/-- What stands between the slashes of `path`, where backslashes count as slashes and slashes at the
front do not count. -/
def segments (path : String) : List String :=
  split '/' (trimStart (· = '/') (replaceChar '\\' '/' path))

/-- One step of a walk that has come to `place`. From the root there is no way up. -/
def step? (place : List String) (segment : String) : Option (List String) :=
  if segment = "" ∨ segment = "." then some place
  else if segment = ".." then (if place = [] then none else some place.dropLast)
  else some (place ++ [segment])

/-- Where a walk along `segments` ends that starts at the root. -/
def walk? (segments : List String) : Option (List String) := segments.foldlM step? []

/-- `step?` keeps to names that were there or are the segment. -/
theorem mem_of_step? (h : step? place segment = some place') {s : String} (hs : s ∈ place') :
    s ∈ place ∨ s = segment ∧ segment ≠ "" ∧ segment ≠ "." ∧ segment ≠ ".." := by
  unfold step? at h
  split at h
  · cases h
    exact .inl hs
  · rename_i hplain
    rw [not_or] at hplain
    split at h
    · split at h
      · cases h
      · cases h
        exact .inl (List.dropLast_subset _ hs)
    · rename_i hup
      cases h
      rw [List.mem_append, List.mem_singleton] at hs
      exact hs.imp_right fun heq => ⟨heq, hplain.1, hplain.2, hup⟩

theorem mem_of_walk? {segments : List String} (h : walk? segments = some place) {s : String}
    (hs : s ∈ place) : s ∈ segments ∧ s ≠ "" ∧ s ≠ "." ∧ s ≠ ".." := by
  have hfold (segments start : List String) (h : segments.foldlM step? start = some place) :
      s ∈ start ∨ s ∈ segments ∧ s ≠ "" ∧ s ≠ "." ∧ s ≠ ".." := by
    induction segments generalizing start with
    | nil =>
        cases h
        exact .inl hs
    | cons segment segments ih =>
        rw [List.foldlM_cons] at h
        obtain ⟨next, hnext, h⟩ := Option.bind_eq_some_iff.mp h
        rcases ih next h with hin | ⟨hin, hplain⟩
        · rcases mem_of_step? hnext hin with hin | ⟨rfl, hplain⟩
          · exact .inl hin
          · exact .inr ⟨List.mem_cons_self, hplain⟩
        · exact .inr ⟨List.mem_cons_of_mem _ hin, hplain⟩
  simpa using hfold segments [] h

/-- A walk ends at names: `IsName` holds of all of them. -/
theorem isName_of_walk? (h : walk? (split '/' text) = some place) : ∀ s ∈ place, IsName s := by
  intro s hs
  obtain ⟨hmem, hempty, hhere, hup⟩ := mem_of_walk? h hs
  exact ⟨hempty, hhere, hup, not_mem_of_mem_split hmem⟩

/-- Names are walked down one after the other. -/
theorem walk?_of_isName (h : ∀ s ∈ place, IsName s) : walk? place = some place := by
  have hfold (names start : List String) (h : ∀ s ∈ names, IsName s) :
      names.foldlM step? start = some (start ++ names) := by
    induction names generalizing start with
    | nil => simp
    | cons s names ih =>
        rw [List.forall_mem_cons] at h
        have hstep : step? start s = some (start ++ [s]) := by
          simp [step?, h.1.ne_empty, h.1.ne_here, h.1.ne_up]
        rw [List.foldlM_cons, hstep]
        simpa using ih (start ++ [s]) h.2
  simpa [walk?] using hfold place [] h

/-! ## Collapsing follows the walk

A collapsed row keeps its last segment first. As long as the walk stays inside, the row is the place
turned round. Once the walk has left, `..` stands at its end and never goes away again. -/

/-- What has been collapsed so far, `done`, and where the walk has come to, if it is still
inside. -/
def Tracks (done : List String) : Option (List String) → Prop
  | some place => done = place.reverse ∧ ".." ∉ place
  | none => done.getLast? = some ".."

theorem pushSegment_of_step? (hup : ".." ∉ place) (h : step? place segment = some place') :
    pushSegment false place.reverse segment = place'.reverse := by
  unfold step? at h
  unfold pushSegment
  split at h
  · rename_i hskip
    cases h
    rw [if_pos (by simpa using hskip)]
  · rename_i hplain
    rw [if_neg (by simpa using hplain)]
    split at h
    · rename_i hseg
      rw [if_pos hseg]
      split at h
      · cases h
      · rename_i hne
        cases h
        obtain ⟨top, rest, hback⟩ := List.exists_cons_of_ne_nil (List.reverse_ne_nil_iff.mpr hne)
        have htop : top ≠ ".." := by
          rintro rfl
          exact hup (List.mem_reverse.mp (hback ▸ List.mem_cons_self))
        rw [← List.tail_reverse, hback]
        split
        · rename_i hnil
          cases hnil
        · rename_i hcons
          exact absurd (List.cons.inj hcons).1 htop
        · rename_i hcons
          exact (List.cons.inj hcons).2.symm
    · rename_i hseg
      cases h
      rw [if_neg hseg, List.reverse_append, List.reverse_singleton, List.singleton_append]

theorem pushSegment_of_leaving (h : step? place segment = none) :
    pushSegment false place.reverse segment = [".."] := by
  unfold step? at h
  split at h
  · cases h
  · rename_i hplain
    split at h
    · rename_i hseg
      split at h
      · rename_i hroot
        subst hseg hroot
        rfl
      · cases h
    · cases h

theorem getLast?_pushSegment (h : done.getLast? = some "..") (segment : String) :
    (pushSegment false done segment).getLast? = some ".." := by
  unfold pushSegment
  split
  · exact h
  · split
    · split
      · simp at h
      · simpa [List.getLast?_cons] using h
      · rename_i top rest htop
        cases rest with
        | nil =>
            rw [List.getLast?_singleton, Option.some.injEq] at h
            exact absurd h htop
        | cons next rest => simpa using h
    · rw [List.getLast?_cons, h]
      rfl

theorem Tracks.push {reached : Option (List String)} (h : Tracks done reached) (segment : String) :
    Tracks (pushSegment false done segment) (reached.bind (step? · segment)) := by
  cases reached with
  | none => exact getLast?_pushSegment h segment
  | some place =>
      obtain ⟨rfl, hup⟩ := h
      rw [Option.bind_some]
      cases hstep : step? place segment with
      | none =>
          rw [Tracks, pushSegment_of_leaving hstep]
          rfl
      | some place' =>
          refine ⟨pushSegment_of_step? hup hstep, fun hmem => ?_⟩
          rcases mem_of_step? hstep hmem with hmem | ⟨rfl, -, -, hne⟩
          · exact hup hmem
          · exact hne rfl

theorem tracks_foldl (segments : List String) {reached : Option (List String)}
    (h : Tracks done reached) :
    Tracks (segments.foldl (pushSegment false) done) (reached.bind (segments.foldlM step?)) := by
  induction segments generalizing done reached with
  | nil => simpa using h
  | cons segment segments ih =>
      have hnext := ih (h.push segment)
      rw [Option.bind_assoc] at hnext
      simpa only [List.foldl_cons, List.foldlM_cons, Option.bind_eq_bind] using hnext

theorem tracks_collapse (segments : List String) :
    Tracks (collapse false segments).reverse (walk? segments) := by
  rw [collapse, List.reverse_reverse]
  have hstart : Tracks [] (some []) := ⟨rfl, by simp⟩
  exact tracks_foldl segments hstart

/-- A walk that stays inside ends at what `collapse` gives. -/
theorem collapse_of_walk? {segments : List String} (h : walk? segments = some place) :
    collapse false segments = place := by
  have htracks := tracks_collapse segments
  rw [h] at htracks
  exact List.reverse_inj.mp htracks.1

/-- What `collapse` gives along a walk that leaves the root begins with `..`. -/
theorem head?_collapse_of_leaving {segments : List String} (h : walk? segments = none) :
    (collapse false segments).head? = some ".." := by
  have htracks := tracks_collapse segments
  rw [h, Tracks, List.getLast?_reverse] at htracks
  exact htracks

/-! ## The relative form: `relative?` -/

/-- Names have no way up at their front, and they are not nothing. -/
theorem not_refused_of_isName (h : ∀ s ∈ place, IsName s) (hne : place ≠ []) :
    ofSegments place ≠ "." ∧ ofSegments place ≠ ".." ∧ startsWith (ofSegments place) "../" = false := by
  have hsplit := split_ofSegments hne fun s hs => (h s hs).no_slash
  refine ⟨fun heq => ?_, fun heq => ?_, ?_⟩
  · rw [heq] at hsplit
    exact (h "." (hsplit ▸ by decide)).ne_here rfl
  · rw [heq] at hsplit
    exact (h ".." (hsplit ▸ by decide)).ne_up rfl
  · rw [Bool.eq_false_iff]
    intro hstarts
    obtain ⟨rest, hrest⟩ := List.isPrefixOf_iff_prefix.mp hstarts
    have hfront : ".." ∈ split '/' (ofSegments place) := by
      rw [split, ← hrest, show "../".toList = ['.', '.'] ++ ['/'] from rfl, List.append_assoc,
        List.singleton_append, splitChars_append (by decide)]
      exact List.mem_cons_self
    exact (h ".." (hsplit ▸ hfront)).ne_up rfl

/-- What begins with `..` is refused. -/
theorem refused_of_head? (h : place.head? = some "..") :
    ofSegments place = ".." ∨ startsWith (ofSegments place) "../" = true := by
  cases place with
  | nil => cases h
  | cons s place =>
      cases h
      cases place with
      | nil => exact .inl (by simp [ofSegments])
      | cons next place =>
          right
          rw [startsWith, List.isPrefixOf_iff_prefix, ofSegments, String.intercalate_cons_cons]
          exact ⟨(String.intercalate "/" (next :: place)).toList, by simp⟩

theorem normalize_of_relative (h : text.toList.head? ≠ some '/') :
    normalize text =
      if ofSegments (collapse false (split '/' text)) = "" then "."
      else ofSegments (collapse false (split '/' text)) := by
  have hslashes : text.toList.takeWhile (· = '/') = [] := by
    cases hcs : text.toList with
    | nil => rfl
    | cons c cs =>
        have hc : c ≠ '/' := by simpa [hcs] using h
        simp [hc]
  simp [normalize, hslashes]

theorem head?_trimStart (s : String) : (trimStart (· = '/') s).toList.head? ≠ some '/' := by
  intro h
  rw [trimStart, String.toList_ofList] at h
  obtain ⟨rest, hrest⟩ := List.head?_eq_some_iff.mp h
  have hhead := List.head_dropWhile_not (· = '/') (by simp [hrest] : s.toList.dropWhile (· = '/') ≠ [])
  simp [hrest] at hhead

theorem refuse_normalize (h : text.toList.head? ≠ some '/') :
    (if text = "" then none
      else if normalize text = "." || normalize text = ".." || startsWith (normalize text) "../" then
        none
      else some (normalize text)) =
      (walk? (split '/' text)).bind fun place =>
        if place = [] then none else some (ofSegments place) := by
  rw [normalize_of_relative h]
  cases hwalk : walk? (split '/' text) with
  | none =>
      have hrefused := refused_of_head? (head?_collapse_of_leaving hwalk)
      have hne : ofSegments (collapse false (split '/' text)) ≠ "" := by
        intro hempty
        rw [hempty] at hrefused
        revert hrefused
        decide
      rw [if_neg hne]
      rcases hrefused with hup | hup <;> simp [hup]
  | some place =>
      rw [collapse_of_walk? hwalk]
      have hnames := isName_of_walk? hwalk
      have hempty := ofSegments_eq_empty fun s hs => (hnames s hs).ne_empty
      by_cases hroot : place = []
      · simp [hroot, ofSegments]
      · obtain ⟨hhere, hup, hfront⟩ := not_refused_of_isName hnames hroot
        have htext : text ≠ "" := by
          rintro rfl
          cases hwalk
          exact hroot rfl
        simp [hroot, hempty, hhere, hup, hfront, htext]

/-- **The relative form is where the walk ends**, if it stays inside and does not end at the root.
`Tracks` carries the argument from `collapse` to `walk?`. -/
theorem relative?_eq (path : String) :
    relative? path = (walk? (segments path)).bind fun place =>
      if place = [] then none else some (ofSegments place) :=
  refuse_normalize (head?_trimStart (replaceChar '\\' '/' path))

theorem relative?_eq_some_iff :
    relative? path = some r ↔
      ∃ place, walk? (segments path) = some place ∧ place ≠ [] ∧ ofSegments place = r := by
  rw [relative?_eq, Option.bind_eq_some_iff]
  simp only [Option.ite_none_left_eq_some, Option.some.injEq]

theorem relative?_eq_none_iff :
    relative? path = none ↔ walk? (segments path) = none ∨ walk? (segments path) = some [] := by
  rw [relative?_eq]
  cases walk? (segments path) with
  | none => simp
  | some place => simp

/-! ## Relative forms of relative forms -/

theorem ofSegments_split (s : String) : ofSegments (split '/' s) = s := by
  apply String.toList_inj.mp
  rw [ofSegments, String.toList_intercalate, split, List.map_map, show "/".toList = ['/'] from rfl]
  simpa [Function.comp_def] using intercalate_splitChars '/' s.toList

theorem mem_of_mem_ofSegments (h : c ∈ (ofSegments place).toList) :
    c = '/' ∨ ∃ s ∈ place, c ∈ s.toList := by
  rw [ofSegments, String.toList_intercalate, show "/".toList = ['/'] from rfl] at h
  rcases mem_of_mem_intercalate h with hslash | ⟨piece, hpiece, hc⟩
  · exact .inl hslash
  · obtain ⟨s, hs, rfl⟩ := List.mem_map.mp hpiece
    exact .inr ⟨s, hs, hc⟩

theorem mem_of_mem_segments {s : String} (h : s ∈ segments path) (hc : c ∈ s.toList) :
    c = '/' ∨ c ∈ path.toList ∧ c ≠ '\\' := by
  obtain ⟨cs, hcs, rfl⟩ := List.mem_map.mp h
  have hmem := mem_of_mem_splitChars hcs (by simpa using hc)
  rw [trimStart, String.toList_ofList, replaceChar, String.toList_map] at hmem
  obtain ⟨d, hd, rfl⟩ := List.mem_map.mp ((List.dropWhile_sublist _).mem hmem)
  split
  · exact .inl rfl
  · rename_i hback
    exact .inr ⟨hd, hback⟩

/-- All characters of a relative form `r` were in the path, up to backslashes. -/
theorem mem_of_relative? (h : relative? path = some r) (hc : c ∈ r.toList) :
    c = '/' ∨ c ∈ path.toList ∧ c ≠ '\\' := by
  obtain ⟨place, hwalk, -, rfl⟩ := relative?_eq_some_iff.mp h
  rcases mem_of_mem_ofSegments hc with hslash | ⟨s, hs, hc⟩
  · exact .inl hslash
  · exact mem_of_mem_segments (mem_of_walk? hwalk hs).1 hc

theorem backslash_not_mem (h : relative? path = some r) : '\\' ∉ r.toList := by
  intro hmem
  rcases mem_of_relative? h hmem with hslash | ⟨-, hne⟩
  · exact absurd hslash (by decide)
  · exact hne rfl

theorem segments_of_not_mem (h : '\\' ∉ path.toList) :
    segments path = split '/' (trimStart (· = '/') path) := by
  have hreplace : replaceChar '\\' '/' path = path := by
    apply String.toList_inj.mp
    rw [replaceChar, String.toList_map]
    refine (List.map_congr_left fun c hc => ?_).trans (List.map_id _)
    have hne : c ≠ '\\' := fun heq => h (heq ▸ hc)
    exact if_neg hne
  rw [segments, hreplace]

theorem segments_ofSegments (h : ∀ s ∈ place, IsName s) (hne : place ≠ [])
    (hback : '\\' ∉ (ofSegments place).toList) : segments (ofSegments place) = place := by
  have htrim : trimStart (· = '/') (ofSegments place) = ofSegments place := by
    obtain ⟨s, rest, rfl⟩ := List.exists_cons_of_ne_nil hne
    have hname := h s List.mem_cons_self
    obtain ⟨c, cs, hcs⟩ := List.exists_cons_of_ne_nil fun hnil =>
      hname.ne_empty (String.toList_eq_nil_iff.mp hnil)
    have hc : c ≠ '/' := fun heq => hname.no_slash (by simp [hcs, heq])
    apply String.toList_inj.mp
    rw [trimStart, String.toList_ofList, ofSegments, String.toList_intercalate, List.map_cons, hcs,
      List.intercalate_cons_cons_left]
    exact List.dropWhile_cons_of_neg (by simpa using hc)
  rw [segments_of_not_mem hback, htrim, split_ofSegments hne fun s hs => (h s hs).no_slash]

/-- **A relative form is its own relative form**: `relative?` is idempotent. -/
theorem relative?_of_relative? (h : relative? path = some r) : relative? r = some r := by
  have hback := backslash_not_mem h
  obtain ⟨place, hwalk, hne, rfl⟩ := relative?_eq_some_iff.mp h
  have hnames := isName_of_walk? hwalk
  refine relative?_eq_some_iff.mpr ⟨place, ?_, hne, rfl⟩
  rw [segments_ofSegments hnames hne hback, walk?_of_isName hnames]

/-- **The relative form of a path is found by walking along its segments.** It consists of names, so it
leads nowhere above the root, and it is its own relative form. -/
theorem relative_form_of_walk (path : String) :
    ofSegments (segments path) = trimStart (· = '/') (replaceChar '\\' '/' path) ∧
    (∀ s ∈ segments path, '/' ∉ s.toList) ∧
    (relative? path = none ↔ walk? (segments path) = none ∨ walk? (segments path) = some []) ∧
    (∀ place, walk? (segments path) = some place → place ≠ [] →
      relative? path = some (ofSegments place)) ∧
    ∀ r, relative? path = some r →
      split '/' r ≠ [] ∧ (∀ s ∈ split '/' r, IsName s) ∧ '\\' ∉ r.toList ∧
      (∀ front, front <+: split '/' r → walk? front = some front) ∧ relative? r = some r := by
  refine ⟨ofSegments_split _, fun s hs => not_mem_of_mem_split hs, relative?_eq_none_iff,
    fun place hwalk hne => relative?_eq_some_iff.mpr ⟨place, hwalk, hne, rfl⟩, fun r hr => ?_⟩
  obtain ⟨place, hwalk, hne, hplace⟩ := relative?_eq_some_iff.mp hr
  have hnames := isName_of_walk? hwalk
  have hsplit : split '/' r = place := by
    rw [← hplace, split_ofSegments hne fun s hs => (hnames s hs).no_slash]
  rw [hsplit]
  refine ⟨hne, hnames, backslash_not_mem hr, fun front hfront => ?_, relative?_of_relative? hr⟩
  exact walk?_of_isName fun s hs => hnames s (hfront.subset hs)

end PageReach.Path
