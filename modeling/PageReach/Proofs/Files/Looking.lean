import PageReach.Proofs.Fault
import PageReach.Proofs.Files.Place

/-!
# Looking at paths

What can stop a question about a path, said without the functions that answer it:

* **Writing** (`absolute_stops_iff`, `absolute_of_isWritable`): `Path.absolute` stops at a character
  that no name can have, also in a segment that `..` takes away again, and at nothing else.
* **Length** (`isTooLong_iff`): `Disk.isTooLong` finds a path `TooLong` as a whole, or in a name that
  is asked for in a directory of the disk.
* **Looking** (`leads_stops_iff`, `leads_ok`, `leadsToFile_stops_iff`, `leadsToFile_ok`): `Disk.leads`
  and `Disk.leadsToFile` stop at the paths that the disk `Refuses`. Of others they tell whether the disk
  `hasEntry` or `hasFile` there.
-/

namespace PageReach

open Text

variable {path : String}

/-! ## Paths that can be written: `isWritable` -/

namespace Path

theorem isWritable_eq_false_iff :
    isWritable path = false ↔ ∃ c ∈ path.toList, c = '\x00' ∨ isStray c = true := by
  simp only [isWritable, List.all_eq_false, Bool.and_eq_true, decide_eq_true_eq, Bool.not_eq_true',
    not_and, Bool.not_eq_false]
  refine exists_congr fun c => and_congr_right fun _ => ?_
  by_cases hc : c = '\x00' <;> simp [hc]

theorem checkSegment_stops_iff (segment : String) :
    Stops (checkSegment segment) ↔ ∃ c ∈ segment.toList, c = '\x00' ∨ isStray c = true := by
  unfold checkSegment
  split
  · rename_i hstray
    obtain ⟨c, hc, hstray⟩ := List.any_eq_true.mp hstray
    exact iff_of_true (stops_error _) ⟨c, hc, .inr hstray⟩
  · rename_i hstray
    split
    · rename_i hzero
      exact iff_of_true (stops_error _) ⟨_, List.contains_iff_mem.mp hzero, .inl rfl⟩
    · rename_i hzero
      refine iff_of_false (not_stops_ok _) ?_
      rintro ⟨c, hc, rfl | hc'⟩
      · exact hzero (List.contains_iff_mem.mpr hc)
      · exact hstray (List.any_eq_true.mpr ⟨c, hc, hc'⟩)

/-- **`absolute` stops exactly at a path that cannot be written.** -/
theorem absolute_stops_iff (path : String) : Stops (absolute path) ↔ isWritable path = false := by
  rw [absolute, stops_bind_of_iff (P := False) (by simp), or_false, stops_forM,
    isWritable_eq_false_iff]
  simp only [checkSegment_stops_iff]
  constructor
  · rintro ⟨segment, hsegment, c, hc, hbad⟩
    exact ⟨c, mem_of_mem_split hsegment hc, hbad⟩
  · rintro ⟨c, hc, hbad⟩
    have hslash : c ≠ '/' := by
      rintro rfl
      revert hbad
      decide
    obtain ⟨segment, hsegment, hmem⟩ := exists_mem_split hc hslash
    exact ⟨segment, hsegment, c, hmem, hbad⟩

theorem eq_placed_of_absolute {place : String} (h : absolute path = .ok place) :
    place = placed path := by
  obtain ⟨-, -, h⟩ := exists_ok_of_bind h
  cases h
  rfl

theorem absolute_of_isWritable (h : isWritable path = true) : absolute path = .ok (placed path) := by
  rcases stops_or_ok (absolute path) with hstop | ⟨place, hplace⟩
  · rw [absolute_stops_iff, h] at hstop
    cases hstop
  · rw [hplace, eq_placed_of_absolute hplace]

end Path

/-! ## Paths that are `TooLong` -/

namespace Disk

variable {d : Disk}

/-- `path` has too many bytes for the disk: as a whole, or in a name on the way, which is asked for
if there is a directory to look it up in. -/
inductive TooLong (d : Disk) (path : String) : Prop where
  | whole (hlong : pathLimit ≤ byteSize (spelled path))
  | name {front back place : List String} {name : String} (hpath : steps path = front ++ name :: back)
      (hplace : front.foldlM d.step? [] = some place) (hdirectory : d.at? place = some .directory)
      (hlong : nameLimit < byteSize name)

theorem isSome_step? {place : List String} (segment : String) :
    (d.step? place segment).isSome ↔ d.at? place = some .directory := by
  unfold step?
  split <;> simp_all

theorem meetsLongName_iff {segments place : List String} :
    d.meetsLongName place segments = true ↔ ∃ front name back here, segments = front ++ name :: back ∧
      front.foldlM d.step? place = some here ∧ d.at? here = some .directory ∧
      nameLimit < byteSize name := by
  induction segments generalizing place with
  | nil => simp [meetsLongName]
  | cons segment segments ih =>
      rw [meetsLongName]
      constructor
      · intro h
        split at h
        · cases h
        · rename_i next hnext
          rcases Bool.or_eq_true_iff.mp h with hlong | h
          · refine ⟨[], segment, segments, place, rfl, rfl, ?_, of_decide_eq_true hlong⟩
            rw [← isSome_step? segment, hnext]
            rfl
          · obtain ⟨front, name, back, here, rfl, hfront, hhere, hlong⟩ := ih.mp h
            exact ⟨segment :: front, name, back, here, rfl, by simp [hnext, hfront], hhere, hlong⟩
      · rintro ⟨front, name, back, here, hsplit, hfront, hhere, hlong⟩
        cases front with
        | nil =>
            cases hsplit
            cases hfront
            rw [← isSome_step? segment, Option.isSome_iff_exists] at hhere
            obtain ⟨next, hnext⟩ := hhere
            simp [hnext, hlong]
        | cons first front =>
            rw [List.cons_append, List.cons.injEq] at hsplit
            obtain ⟨rfl, rfl⟩ := hsplit
            rw [List.foldlM_cons] at hfront
            obtain ⟨next, hnext, hfront⟩ := Option.bind_eq_some_iff.mp hfront
            have hrest := ih.mpr ⟨front, name, back, here, rfl, hfront, hhere, hlong⟩
            simp [hnext, hrest]

/-- **`isTooLong` tells the paths that are `TooLong`.** -/
theorem isTooLong_iff : d.isTooLong path = true ↔ d.TooLong path := by
  rw [isTooLong, Bool.or_eq_true, decide_eq_true_iff, meetsLongName_iff]
  constructor
  · rintro (hlong | ⟨front, name, back, place, hpath, hplace, hdirectory, hlong⟩)
    · exact .whole hlong
    · exact .name hpath hplace hdirectory hlong
  · intro h
    cases h with
    | whole hlong => exact .inl hlong
    | name hpath hplace hdirectory hlong =>
        exact .inr ⟨_, _, _, _, hpath, hplace, hdirectory, hlong⟩

/-! ## Looking: `leads` and `leadsToFile` -/

/-- There is something at `path`. Nothing is at one that cannot be written. -/
def hasEntry (d : Disk) (path : String) : Bool := Path.isWritable path && (d.entry? path).isSome

/-- There is a file at `path`. -/
def hasFile (d : Disk) (path : String) : Bool := Path.isWritable path && d.isFile path

/-- The disk does not say what is at `path`, because it is `TooLong`. -/
def Refuses (d : Disk) (path : String) : Prop := Path.isWritable path = true ∧ d.TooLong path

theorem look_stops_iff : Stops (d.look path) ↔ d.Refuses path := by
  unfold look Refuses
  rw [← isTooLong_iff]
  cases Path.isWritable path with
  | false => simp
  | true => cases d.isTooLong path <;> simp

theorem look_ok {e? : Option Entry} (h : d.look path = .ok e?) :
    e? = if Path.isWritable path then d.entry? path else none := by
  unfold look at h
  cases hwritable : Path.isWritable path with
  | false =>
      rw [hwritable] at h
      cases h
      rfl
  | true =>
      rw [hwritable] at h
      split at h
      · contradiction
      · split at h
        · cases h
        · cases h
          rfl

theorem leads_stops_iff (path : String) : Stops (d.leads path) ↔ d.Refuses path :=
  stops_map.trans look_stops_iff

theorem leadsToFile_stops_iff (path : String) : Stops (d.leadsToFile path) ↔ d.Refuses path :=
  stops_map.trans look_stops_iff

theorem leads_ok (path : String) (b : Bool) (h : d.leads path = .ok b) : b = d.hasEntry path := by
  obtain ⟨e?, hlook, rfl⟩ := exists_ok_of_map h
  rw [look_ok hlook, hasEntry]
  cases Path.isWritable path <;> rfl

theorem leadsToFile_ok (path : String) (b : Bool) (h : d.leadsToFile path = .ok b) :
    b = d.hasFile path := by
  obtain ⟨e?, hlook, rfl⟩ := exists_ok_of_map h
  rw [look_ok hlook, hasFile, isFile]
  cases Path.isWritable path <;> rfl

end Disk

end PageReach
