import PageReach.Catalog.Mention
import Mathlib.Data.List.Sort

/-!
# Whole words

`mentionsFrom` goes through a text from left to right. Where a name begins, the longest one is
taken, and the search goes on behind it. So a name that stands somewhere as a `WholeWord` is found,
unless it is `Covered` there by another name that has been found before, or that begins at the same
place and is taken in its stead.

* **Soundness** (`wholeWord_of_mem_mentionsFrom`, `wholeWord_of_mem_mentions`): what is found stands
  in the text as a whole word.
* **Completeness** (`mem_mentionsFrom`, `mem_mentions`): a whole word that is not covered is found.
* **Word characters** (`not_isWordy_of_covered`): among names that are `IsWordy`, none covers
  another.
-/

namespace PageReach.Catalog

open Text

variable {names : List (List Char)} {source front name back done rest cs : List Char} {c : Char}

/-- `name` stands in `source` between `front` and `back` as a whole word. -/
structure WholeWord (source front name back : List Char) : Prop where
  split : source = front ++ (name ++ back)
  begins : isBoundary front.getLast? name.head? = true
  ends : isBoundary name.getLast? back.head? = true

/-- The place right behind `front` belongs to one of the `names` that stands there as a `WholeWord`,
and that is not `name` in this place. -/
def Covered (names : List (List Char)) (source front name : List Char) : Prop :=
  ∃ other ∈ names, ∃ front' back', WholeWord source front' other back' ∧
    (front', other) ≠ (front, name) ∧ front'.length ≤ front.length ∧
    front.length < front'.length + other.length

theorem standsAt_iff : standsAt cs name = true ↔
    ∃ back, cs = name ++ back ∧ isBoundary name.getLast? back.head? = true := by
  rw [standsAt, Bool.and_eq_true, List.isPrefixOf_iff_prefix]
  constructor
  · rintro ⟨⟨back, rfl⟩, hends⟩
    exact ⟨back, rfl, by simpa using hends⟩
  · rintro ⟨back, rfl, hends⟩
    exact ⟨List.prefix_append name back, by simpa using hends⟩

/-- A name that `standsAt` a place where a word begins stands there as a `WholeWord`. -/
theorem wholeWord_of_standsAt (hne : name ≠ []) (hbegins : isBoundary done.getLast? (some c) = true)
    (h : standsAt (c :: cs) name = true) : ∃ back, WholeWord (done ++ c :: cs) done name back := by
  obtain ⟨back, hsplit, hends⟩ := standsAt_iff.mp h
  obtain ⟨d, name, rfl⟩ := List.exists_cons_of_ne_nil hne
  obtain ⟨rfl, -⟩ := List.cons.inj hsplit
  exact ⟨back, by rw [hsplit], hbegins, hends⟩

/-! ## What `mentionsFrom` finds -/

/-- **Every name that `mentionsFrom` finds stands in the source as a `WholeWord`.** By induction
over the rest `cs` of the source; `skip` characters of it belong to the name found last. -/
theorem wholeWord_of_mem_mentionsFrom (hnames : ∀ n ∈ names, n ≠ []) {skip : Nat}
    (h : name ∈ mentionsFrom names done.getLast? skip cs) :
    name ∈ names ∧ ∃ front back, WholeWord (done ++ cs) front name back := by
  -- from left to right: what has been looked at goes over to `done`
  induction cs generalizing done skip with
  | nil => simp [mentionsFrom] at h
  | cons c cs ih =>
      have hnext {skip : Nat} (h : name ∈ mentionsFrom names (some c) skip cs) :
          name ∈ names ∧ ∃ front back, WholeWord (done ++ c :: cs) front name back := by
        rw [← List.getLast?_concat (l := done)] at h
        simpa using ih h
      cases skip with
      | succ skip => exact hnext h
      | zero =>
          rw [mentionsFrom] at h
          split at h
          · rename_i found hfound
            rcases List.mem_cons.mp h with rfl | h
            · split at hfound
              · rename_i hbegins
                have hmem := List.mem_of_find?_eq_some hfound
                obtain ⟨back, hwhole⟩ :=
                  wholeWord_of_standsAt (hnames name hmem) hbegins (List.find?_some hfound)
                exact ⟨hmem, done, back, hwhole⟩
              · cases hfound
            · exact hnext h
          · exact hnext h

/-- Where a name begins that is not `Covered`, it is the one that is found. -/
theorem find?_of_not_covered (hnames : ∀ n ∈ names, n ≠ []) (hname : name ∈ names)
    (hwhole : WholeWord source front name back) (hfree : ¬ Covered names source front name) :
    names.find? (standsAt (name ++ back)) = some name := by
  have hstands : standsAt (name ++ back) name = true := standsAt_iff.mpr ⟨back, rfl, hwhole.ends⟩
  obtain ⟨found, hfound⟩ :=
    Option.isSome_iff_exists.mp (List.find?_isSome.mpr ⟨name, hname, hstands⟩)
  have hmem := List.mem_of_find?_eq_some hfound
  obtain ⟨c, name, rfl⟩ := List.exists_cons_of_ne_nil (hnames name hname)
  obtain ⟨back', hwhole'⟩ :=
    wholeWord_of_standsAt (hnames found hmem) hwhole.begins (List.find?_some hfound)
  rw [hfound]
  by_contra hne
  refine hfree ⟨found, hmem, front, back', ?_, by simpa using hne, Nat.le_refl _, ?_⟩
  · rw [hwhole.split]
    exact hwhole'
  · have hpos := List.length_pos_of_ne_nil (hnames found hmem)
    omega

/-- A name `found` before one that is not `Covered` does not reach beyond its beginning. -/
theorem length_le_of_not_covered {found : List Char} (hmem : found ∈ names)
    (hwhole : WholeWord source done found back)
    (hfree : ¬ Covered names source (done ++ c :: rest) name) : found.length ≤ rest.length + 1 := by
  have hlength : (done ++ c :: rest).length = done.length + (rest.length + 1) := by simp
  by_contra hlong
  refine hfree ⟨found, hmem, done, back, hwhole, ?_, by omega, by omega⟩
  intro heq
  rw [← (Prod.mk.inj heq).1] at hlength
  omega

/-- **A name that stands in the source as a `WholeWord` is found, unless it is `Covered`.** By
induction over `rest`, what lies between the place of the search and the name; the search never
skips more than that (`hskip`). -/
theorem mem_mentionsFrom (hnames : ∀ n ∈ names, n ≠ []) (hname : name ∈ names)
    (hwhole : WholeWord source front name back) (hfree : ¬ Covered names source front name)
    {skip : Nat} (hfront : front = done ++ rest) (hskip : skip ≤ rest.length) :
    name ∈ mentionsFrom names done.getLast? skip (rest ++ (name ++ back)) := by
  -- from left to right: `rest` is what is left before the name, and no match may reach beyond it
  induction rest generalizing done skip with
  | nil =>
      obtain rfl : front = done := by simpa using hfront
      obtain rfl : skip = 0 := Nat.le_zero.mp hskip
      have hfound := find?_of_not_covered hnames hname hwhole hfree
      obtain ⟨c, name, rfl⟩ := List.exists_cons_of_ne_nil (hnames name hname)
      have hbegins : isBoundary front.getLast? (some c) = true := hwhole.begins
      rw [List.cons_append] at hfound
      rw [List.nil_append, List.cons_append, mentionsFrom, if_pos hbegins, hfound]
      exact List.mem_cons_self
  | cons c rest ih =>
      have hnext {skip : Nat} (hskip : skip ≤ rest.length) :
          name ∈ mentionsFrom names (some c) skip (rest ++ (name ++ back)) := by
        rw [← List.getLast?_concat (l := done)]
        exact ih (by simpa using hfront) hskip
      cases skip with
      | succ skip => exact hnext (Nat.le_of_succ_le_succ hskip)
      | zero =>
          rw [List.cons_append, mentionsFrom]
          split
          · rename_i found hfound
            refine List.mem_cons_of_mem found (hnext ?_)
            split at hfound
            · rename_i hbegins
              have hmem := List.mem_of_find?_eq_some hfound
              obtain ⟨back', hwhole'⟩ :=
                wholeWord_of_standsAt (hnames found hmem) hbegins (List.find?_some hfound)
              subst hfront
              rw [← List.cons_append, ← List.append_assoc, ← hwhole.split] at hwhole'
              have hle := length_le_of_not_covered hmem hwhole' hfree
              omega
            · cases hfound
          · exact hnext (Nat.zero_le _)

/-! ## `IsWordy` names -/

/-- All characters of `name` are word characters. -/
def IsWordy (name : List Char) : Prop := ∀ ch ∈ name, isWord ch = true

instance : Decidable (IsWordy name) := List.decidableBAll (fun ch => isWord ch = true) name

theorem IsWordy.head? (h : IsWordy name) (hne : name ≠ []) : name.head?.any isWord = true := by
  rw [List.head?_eq_some_head hne, Option.any_some]
  exact h _ (List.head_mem hne)

theorem IsWordy.getLast? (h : IsWordy name) (hne : name ≠ []) : name.getLast?.any isWord = true := by
  rw [List.getLast?_eq_some_getLast hne, Option.any_some]
  exact h _ (List.getLast_mem hne)

theorem not_isBoundary {before after : Option Char} (hbefore : before.any isWord = true)
    (hafter : after.any isWord = true) : isBoundary before after = false := by
  rw [isBoundary, hbefore, hafter]
  rfl

/-- Between word characters no whole word ends: `isBoundary` is false there. -/
theorem eq_nil_of_ends {extra : List Char} (hne : name ≠ []) (hname : IsWordy name)
    (hextra : IsWordy extra) (h : isBoundary name.getLast? (extra ++ back).head? = true) :
    extra = [] := by
  by_contra hmore
  have hhead : (extra ++ back).head? = extra.head? := by
    obtain ⟨c, extra, rfl⟩ := List.exists_cons_of_ne_nil hmore
    rfl
  rw [hhead, not_isBoundary (hname.getLast? hne) (hextra.head? hmore)] at h
  cases h

/-- Only a name with something else than word characters covers one that `IsWordy`. -/
theorem not_isWordy_of_covered (hnames : ∀ n ∈ names, n ≠ []) (hne : name ≠ []) (hname : IsWordy name)
    (hwhole : WholeWord source front name back) (h : Covered names source front name) :
    ∃ other ∈ names, ¬ IsWordy other := by
  obtain ⟨other, hother, front', back', hwhole', hdifferent, hle, hlt⟩ := h
  refine ⟨other, hother, fun hwordy => ?_⟩
  have hsplit := hwhole'.split.symm.trans hwhole.split
  obtain ⟨between, rfl⟩ : front' <+: front :=
    List.prefix_of_prefix_length_le ⟨other ++ back', hsplit⟩ (List.prefix_append front _) hle
  rw [List.append_assoc, List.append_cancel_left_eq] at hsplit
  by_cases hbetween : between = []
  · -- both begin at one place, and the longer one goes on where the shorter one ends
    subst hbetween
    rw [List.nil_append, List.append_eq_append_iff] at hsplit
    apply hdifferent
    rcases hsplit with ⟨extra, rfl, rfl⟩ | ⟨extra, rfl, rfl⟩
    · have hextra : IsWordy extra := fun ch hch => hname ch (List.mem_append_right _ hch)
      rw [eq_nil_of_ends (hnames other hother) hwordy hextra hwhole'.ends]
      simp
    · have hextra : IsWordy extra := fun ch hch => hwordy ch (List.mem_append_right _ hch)
      rw [eq_nil_of_ends hne hname hextra hwhole.ends]
      simp
  · -- the other one goes on where the name begins
    have hstart : between <+: other := by
      refine List.prefix_of_prefix_length_le (List.prefix_append between _)
        ⟨back', hsplit⟩ ?_
      rw [List.length_append] at hlt
      omega
    have hbefore : IsWordy between := fun ch hch => hwordy ch (hstart.subset hch)
    have hlast : (front' ++ between).getLast? = between.getLast? := by
      rw [List.getLast?_append, List.getLast?_eq_some_getLast hbetween, Option.some_or]
    have hbegins := hwhole.begins
    rw [hlast, not_isBoundary (hbefore.getLast? hbetween) (hname.head? hne)] at hbegins
    cases hbegins

/-! ## Names in any order: `mentions` -/

section Mentions

variable {sought : List String} {key content : String}

theorem mem_longestFirst : key ∈ longestFirst sought ↔ key ∈ sought := List.mem_mergeSort

theorem mem_mentions_iff : key ∈ mentions sought content ↔
    key.toList ∈ mentionsFrom ((longestFirst sought).map String.toList) none 0 content.toList := by
  rw [mentions, List.mem_map]
  constructor
  · rintro ⟨name, hname, rfl⟩
    rwa [String.toList_ofList]
  · intro h
    exact ⟨key.toList, h, String.ofList_toList⟩

theorem mem_longestFirst_chars {n : List Char} :
    n ∈ (longestFirst sought).map String.toList ↔ n ∈ sought.map String.toList := by
  simp only [List.mem_map, mem_longestFirst]

theorem ne_nil_of_mem_longestFirst (hsought : ∀ k ∈ sought, k.toList ≠ []) :
    ∀ n ∈ (longestFirst sought).map String.toList, n ≠ [] := by
  intro n hn
  obtain ⟨k, hk, rfl⟩ := List.mem_map.mp hn
  exact hsought k (mem_longestFirst.mp hk)

theorem wholeWord_of_mem_mentions (hsought : ∀ k ∈ sought, k.toList ≠ [])
    (h : key ∈ mentions sought content) :
    key ∈ sought ∧ ∃ front back, WholeWord content.toList front key.toList back := by
  have hnames := ne_nil_of_mem_longestFirst hsought
  have hfound : key.toList ∈ mentionsFrom _ ([] : List Char).getLast? 0 content.toList :=
    mem_mentions_iff.mp h
  obtain ⟨hmem, hwhole⟩ := wholeWord_of_mem_mentionsFrom hnames hfound
  obtain ⟨k, hk, hkey⟩ := List.mem_map.mp hmem
  exact ⟨String.toList_inj.mp hkey ▸ mem_longestFirst.mp hk, hwhole⟩

theorem mentions_nil (content : String) : mentions [] content = [] :=
  List.eq_nil_iff_forall_not_mem.mpr fun _ h =>
    List.not_mem_nil (wholeWord_of_mem_mentions (by simp) h).1

theorem mem_mentions (hsought : ∀ k ∈ sought, k.toList ≠ []) (hkey : key ∈ sought)
    (hwhole : WholeWord content.toList front key.toList back)
    (hfree : ¬ Covered (sought.map String.toList) content.toList front key.toList) :
    key ∈ mentions sought content := by
  have hnames := ne_nil_of_mem_longestFirst hsought
  rw [mem_mentions_iff, hwhole.split]
  show key.toList ∈ mentionsFrom _ ([] : List Char).getLast? 0 _
  refine mem_mentionsFrom hnames ?_ hwhole ?_ rfl (Nat.zero_le _)
  · exact List.mem_map_of_mem (mem_longestFirst.mpr hkey)
  · rintro ⟨other, hother, hcovers⟩
    exact hfree ⟨other, mem_longestFirst_chars.mp hother, hcovers⟩

end Mentions

end PageReach.Catalog
