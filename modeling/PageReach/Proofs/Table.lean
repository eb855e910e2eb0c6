import Mathlib.Data.List.Nodup
import PageReach.Table

/-!
# Looking up what was put in

A table answers with the value that was put in last under a key. All proofs about tables go through
the lemmas below, so that nothing else depends on how entries are kept.

* **Values** (`get?_insert`, `get?_insertAll`, `get?_update`, `get?_insertNew`): what is found under
  a key.
* **Entries** (`entries_insert_of_new`, `foldl_insertNew`, `entries_perm`): where a value stands.
* **Keys** (`nodup_keys_insert`, `nodup_keys_ofList`, `keysWhere`): no key stands twice.
* **Sorted sets** (`mem_sortedSet`, `pairwise_sortedSet`).
-/

namespace PageReach.Table

variable {α : Type}

theorem eq_of_entries {t u : Table α} (h : t.entries = u.entries) : t = u := congrArg Table.mk h

/-! ## Lists of entries: `insertInto` -/

theorem lookup_insertInto_self {κ : Type} [DecidableEq κ] [BEq κ] [LawfulBEq κ] (key : κ)
    (value : α) (entries : List (κ × α)) : (insertInto key value entries).lookup key = some value := by
  induction entries with
  | nil => simp [insertInto]
  | cons p rest ih =>
      obtain ⟨k, v⟩ := p
      by_cases h : k = key
      · simp [insertInto, h]
      · have hne : (key == k) = false := by simpa using fun e : key = k => h e.symm
        simp [insertInto, h, List.lookup_cons, hne, ih]

theorem lookup_insertInto_of_ne {κ : Type} [DecidableEq κ] [BEq κ] [LawfulBEq κ] {key other : κ}
    (h : other ≠ key) (value : α) (entries : List (κ × α)) :
    (insertInto key value entries).lookup other = entries.lookup other := by
  have hkey : (other == key) = false := by simpa using h
  induction entries with
  | nil => simp [insertInto, List.lookup_cons, hkey]
  | cons p rest ih =>
      obtain ⟨k, v⟩ := p
      by_cases hk : k = key
      · subst hk
        simp [insertInto, List.lookup_cons, hkey]
      · simp only [insertInto, hk, if_false, List.lookup_cons, ih]

theorem mem_insertInto {κ : Type} [DecidableEq κ] {key : κ} {value : α} {entries : List (κ × α)}
    {p : κ × α} (h : p ∈ insertInto key value entries) : p = (key, value) ∨ p ∈ entries := by
  induction entries with
  | nil => exact .inl (List.mem_singleton.mp h)
  | cons q rest ih =>
      obtain ⟨k, v⟩ := q
      rw [insertInto] at h
      split at h
      · rcases List.mem_cons.mp h with rfl | hrest
        · exact .inl rfl
        · exact .inr (List.mem_cons_of_mem _ hrest)
      · rcases List.mem_cons.mp h with rfl | hrest
        · exact .inr List.mem_cons_self
        · exact (ih hrest).imp id (List.mem_cons_of_mem _)

theorem insertInto_of_lookup_eq_none {κ : Type} [DecidableEq κ] [BEq κ] [LawfulBEq κ] {key : κ}
    {entries : List (κ × α)} (h : entries.lookup key = none) (value : α) :
    insertInto key value entries = entries ++ [(key, value)] := by
  induction entries with
  | nil => rfl
  | cons p rest ih =>
      obtain ⟨k, v⟩ := p
      rw [List.lookup_cons] at h
      split at h
      · cases h
      · rename_i hne
        have hk : k ≠ key := fun e => beq_eq_false_iff_ne.mp hne e.symm
        rw [insertInto, if_neg hk, ih h, List.cons_append]

/-! ## Tables: `get?` and `insert` -/

@[simp] theorem get?_empty (key : String) : (empty : Table α).get? key = none := rfl

@[simp] theorem get?_insert_self (t : Table α) (key : String) (value : α) :
    (t.insert key value).get? key = some value :=
  lookup_insertInto_self key value t.entries

theorem get?_insert_of_ne (t : Table α) {key other : String} (h : other ≠ key) (value : α) :
    (t.insert key value).get? other = t.get? other :=
  lookup_insertInto_of_ne h value t.entries

theorem get?_insert (t : Table α) (key other : String) (value : α) :
    (t.insert key value).get? other = if other = key then some value else t.get? other := by
  by_cases h : other = key
  · rw [if_pos h, h, get?_insert_self]
  · rw [if_neg h, get?_insert_of_ne t h]

/-- Of several pairs with one key, the last one counts in `insertAll`. -/
theorem get?_insertAll (t : Table α) (pairs : List (String × α)) (key : String) :
    (t.insertAll pairs).get? key =
      (((pairs.filter (·.1 = key)).getLast?).map (·.2)).or (t.get? key) := by
  induction pairs generalizing t with
  | nil => rfl
  | cons p pairs ih =>
      rw [insertAll, List.foldl_cons, ← insertAll, ih, get?_insert]
      by_cases h : p.1 = key
      · simp [h, List.getLast?_cons]
      · have hne : key ≠ p.1 := fun e => h e.symm
        simp [h, hne]

theorem get?_ofList (pairs : List (String × α)) (key : String) :
    (ofList pairs).get? key = ((pairs.filter (·.1 = key)).getLast?).map (·.2) := by
  simp [ofList, get?_insertAll]

theorem mem_entries_of_get? {t : Table α} {key : String} {value : α}
    (h : t.get? key = some value) : (key, value) ∈ t.entries := by
  obtain ⟨front, back, hsplit, -⟩ := List.lookup_eq_some_iff.mp h
  rw [hsplit]
  exact List.mem_append_right _ List.mem_cons_self

theorem mem_entries_insertAll {t : Table α} {pairs : List (String × α)} {p : String × α}
    (h : p ∈ (t.insertAll pairs).entries) : p ∈ pairs ∨ p ∈ t.entries := by
  induction pairs generalizing t with
  | nil => exact .inr h
  | cons q pairs ih =>
      rcases ih h with h | h
      · exact .inl (List.mem_cons_of_mem _ h)
      · rcases mem_insertInto h with rfl | h
        · exact .inl List.mem_cons_self
        · exact .inr h

/-- A new key comes last. -/
theorem entries_insert_of_new {t : Table α} {key : String} (h : t.get? key = none) (value : α) :
    (t.insert key value).entries = t.entries ++ [(key, value)] :=
  insertInto_of_lookup_eq_none h value

theorem size_insert_of_new {t : Table α} {key : String} (h : t.get? key = none) (value : α) :
    (t.insert key value).size = t.size + 1 := by
  rw [size, entries_insert_of_new h, List.length_append, List.length_singleton, ← size]

theorem keys_insert_of_new {t : Table α} {key : String} (h : t.get? key = none) (value : α) :
    (t.insert key value).keys = t.keys ++ [key] := by
  rw [keys, entries_insert_of_new h, List.map_append, List.map_singleton, ← keys]

/-! ## Answers from a table: `recalled` -/

/-- An answer from the table `t`, or else what `work` works out. -/
def recalled {ε : Type} (t : Table α) (work : String → Except ε α) (key : String) : Except ε α :=
  (t.get? key).elim (work key) .ok

/-- Remembering an answer changes no answer: `recalled` stays the same. -/
theorem recalled_insert {ε : Type} (t : Table α) (work : String → Except ε α) {key : String} {a : α}
    (h : recalled t work key = .ok a) : recalled (t.insert key a) work = recalled t work := by
  funext other
  by_cases ho : other = key
  · rw [ho, h, recalled, get?_insert_self]
    rfl
  · rw [recalled, recalled, get?_insert_of_ne t ho]

/-! ## Keys -/

theorem keys_insertInto (key : String) (value : α) (entries : List (String × α)) :
    (insertInto key value entries).map (·.1) =
      if key ∈ entries.map (·.1) then entries.map (·.1) else entries.map (·.1) ++ [key] := by
  induction entries with
  | nil => rfl
  | cons p rest ih =>
      obtain ⟨k, v⟩ := p
      by_cases hk : k = key
      · simp [insertInto, hk]
      · have hne : key ≠ k := fun h => hk h.symm
        simp only [insertInto, hk, if_false, List.map_cons, ih, List.mem_cons, hne, false_or]
        split <;> rfl

theorem keys_insert_subset {t : Table α} {files : List String} (h : t.keys ⊆ files) {key : String}
    (hkey : key ∈ files) (value : α) : (t.insert key value).keys ⊆ files := by
  rw [keys, insert, keys_insertInto]
  split
  · exact h
  · exact List.append_subset.mpr ⟨h, List.cons_subset.mpr ⟨hkey, List.nil_subset _⟩⟩

theorem nodup_keys_insert {t : Table α} (h : t.keys.Nodup) (key : String) (value : α) :
    (t.insert key value).keys.Nodup := by
  rw [keys, insert, keys_insertInto]
  split
  · exact h
  · rename_i hnew
    refine List.nodup_append.mpr ⟨h, List.pairwise_singleton _ key, ?_⟩
    intro a ha b hb hab
    rw [hab, List.mem_singleton.mp hb] at ha
    exact hnew ha

theorem nodup_keys_insertAll {t : Table α} (h : t.keys.Nodup) (pairs : List (String × α)) :
    (t.insertAll pairs).keys.Nodup := by
  induction pairs generalizing t with
  | nil => exact h
  | cons p pairs ih => exact ih (nodup_keys_insert h p.1 p.2)

theorem nodup_keys_ofList (pairs : List (String × α)) : (ofList pairs).keys.Nodup :=
  nodup_keys_insertAll (show (empty : Table α).keys.Nodup from List.nodup_nil) pairs

/-- If the keys of `u` stand only once, its values are what counts in an update. -/
theorem get?_update (t : Table α) {u : Table α} (hu : u.keys.Nodup) (key : String) :
    (t.update u).get? key = (u.get? key).or (t.get? key) := by
  rw [update, get?_insertAll]
  congr 1
  obtain ⟨entries⟩ := u
  change (entries.map (·.1)).Nodup at hu
  show ((entries.filter (·.1 = key)).getLast?).map (·.2) = entries.lookup key
  induction entries with
  | nil => rfl
  | cons p rest ih =>
      obtain ⟨k, v⟩ := p
      obtain ⟨hnew, hrest⟩ := List.nodup_cons.mp hu
      by_cases hkey : k = key
      · subst hkey
        have hother : rest.filter (·.1 = k) = [] := by
          rw [List.filter_eq_nil_iff]
          intro q hq hq'
          exact hnew (List.mem_map.mpr ⟨q, hq, by simpa using hq'⟩)
        simp [hother]
      · have hne : (key == k) = false := by simpa using fun e : key = k => hkey e.symm
        rw [List.lookup_cons, hne, ← ih hrest, List.filter_cons_of_neg (by simpa using hkey)]

/-- If keys stand only once, `get?` finds each entry under its key. -/
theorem get?_of_mem_entries {t : Table α} (h : t.keys.Nodup) {key : String} {value : α}
    (hmem : (key, value) ∈ t.entries) : t.get? key = some value := by
  obtain ⟨front, back, hsplit⟩ := List.append_of_mem hmem
  refine List.lookup_eq_some_iff.mpr ⟨front, back, hsplit, ?_⟩
  intro p hp
  rw [keys, hsplit, List.map_append, List.nodup_append] at h
  simpa using fun heq : key = p.1 =>
    h.2.2 p.1 (List.mem_map_of_mem hp) key List.mem_cons_self heq.symm

/-- The keys under which there are values with property `p`. -/
def keysWhere (p : α → Bool) (t : Table α) : List String := (t.entries.filter (p ·.2)).map (·.1)

theorem mem_keysWhere {p : α → Bool} {t : Table α} (h : t.keys.Nodup) {key : String} :
    key ∈ t.keysWhere p ↔ ∃ value, t.get? key = some value ∧ p value = true := by
  simp only [keysWhere, List.mem_map, List.mem_filter]
  constructor
  · rintro ⟨⟨key, value⟩, ⟨hmem, hp⟩, rfl⟩
    exact ⟨value, get?_of_mem_entries h hmem, hp⟩
  · rintro ⟨value, hvalue, hp⟩
    exact ⟨(key, value), ⟨mem_entries_of_get? hvalue, hp⟩, rfl⟩

theorem nodup_keysWhere {t : Table α} (h : t.keys.Nodup) (p : α → Bool) : (t.keysWhere p).Nodup :=
  h.sublist (List.filter_sublist.map _)

theorem keysWhere_insert_of_new {t : Table α} {key : String} (h : t.get? key = none) (value : α)
    (p : α → Bool) :
    (t.insert key value).keysWhere p = t.keysWhere p ++ if p value then [key] else [] := by
  rw [keysWhere, entries_insert_of_new h, List.filter_append, List.map_append, ← keysWhere]
  by_cases hp : p value <;> simp [hp]

/-- Tables with the same values under the same keys differ only in the order of their entries. -/
theorem entries_perm {t t' : Table α} (h : t.keys.Nodup) (h' : t'.keys.Nodup)
    (hget : ∀ key, t'.get? key = t.get? key) : t'.entries.Perm t.entries := by
  rw [List.perm_ext_iff_of_nodup (List.Nodup.of_map _ h') (List.Nodup.of_map _ h)]
  rintro ⟨key, value⟩
  constructor
  · intro hmem
    have hvalue := get?_of_mem_entries h' hmem
    rw [hget] at hvalue
    exact mem_entries_of_get? hvalue
  · intro hmem
    have hvalue := get?_of_mem_entries h hmem
    rw [← hget] at hvalue
    exact mem_entries_of_get? hvalue

/-! ## Putting in what is new: `insertNew` -/

theorem contains_iff_mem_keys {t : Table α} {key : String} : t.contains key = true ↔ key ∈ t.keys := by
  simp [contains, get?, keys, List.lookup_isSome_iff]

theorem insertNew_of_mem {t : Table α} {key : String} (h : key ∈ t.keys) (value : α) :
    t.insertNew key value = t := by
  obtain ⟨p, hp, hkey⟩ := List.mem_map.mp h
  exact if_pos (List.any_eq_true.mpr ⟨p, hp, by simpa using hkey⟩)

theorem insertNew_of_not_mem {t : Table α} {key : String} (h : key ∉ t.keys) (value : α) :
    t.insertNew key value = ⟨t.entries ++ [(key, value)]⟩ := by
  refine if_neg fun hany => h ?_
  obtain ⟨p, hp, hkey⟩ := List.any_eq_true.mp hany
  exact List.mem_map.mpr ⟨p, hp, by simpa using hkey⟩

theorem get?_insertNew (t : Table α) (key other : String) (value : α) :
    (t.insertNew key value).get? other =
      (t.get? other).or (if other = key then some value else none) := by
  by_cases hkey : key ∈ t.keys
  · rw [insertNew_of_mem hkey]
    by_cases hother : other = key
    · subst hother
      obtain ⟨v, hv⟩ := Option.isSome_iff_exists.mp (contains_iff_mem_keys.mpr hkey)
      rw [hv, Option.some_or]
    · rw [if_neg hother, Option.or_none]
  · rw [insertNew_of_not_mem hkey, get?, get?, List.lookup_append]
    congr 1
    by_cases hother : other = key
    · simp [hother]
    · have hne : (other == key) = false := by simpa using hother
      simp [hother, hne, List.lookup_cons]

theorem nodup_keys_insertNew {t : Table α} (h : t.keys.Nodup) (key : String) (value : α) :
    (t.insertNew key value).keys.Nodup := by
  by_cases hkey : key ∈ t.keys
  · rwa [insertNew_of_mem hkey]
  · rw [insertNew_of_not_mem hkey, keys, List.map_append, List.map_singleton]
    simpa [keys] using List.Nodup.concat hkey h

/-- Pairs with new keys are put in by `insertNew` as they are. -/
theorem foldl_insertNew {t : Table α} {pairs : List (String × α)}
    (h : (t.keys ++ pairs.map (·.1)).Nodup) :
    (pairs.foldl (fun t p => t.insertNew p.1 p.2) t).entries = t.entries ++ pairs := by
  induction pairs generalizing t with
  | nil => simp
  | cons p pairs ih =>
      have hnew : p.1 ∉ t.keys := fun hmem =>
        (List.nodup_append.mp h).2.2 p.1 hmem p.1 (by simp) rfl
      have hkeys : (t.insertNew p.1 p.2).keys = t.keys ++ [p.1] := by
        rw [insertNew_of_not_mem hnew, keys, List.map_append, keys]
        rfl
      rw [List.foldl_cons, ih (by simpa [hkeys] using h), insertNew_of_not_mem hnew, List.append_assoc]
      rfl

end PageReach.Table

/-! ## Sorted sets: `sortedSet` -/

namespace PageReach

theorem mem_dropRepeats {s : String} {ss : List String} : s ∈ dropRepeats ss ↔ s ∈ ss := by
  induction ss with
  | nil => rfl
  | cons t ss ih =>
      rw [dropRepeats, List.mem_cons, ← ih]
      split
      · rename_i hnil
        rw [hnil, List.mem_cons]
      · rename_i u us hcons
        rw [hcons]
        split
        · rename_i htu
          simp [htu]
        · simp

theorem pairwise_dropRepeats {ss : List String} (h : ss.Pairwise (· ≤ ·)) :
    (dropRepeats ss).Pairwise (· < ·) := by
  induction ss with
  | nil => exact List.Pairwise.nil
  | cons s ss ih =>
      obtain ⟨hs, hss⟩ := List.pairwise_cons.mp h
      have ih := ih hss
      rw [dropRepeats]
      split
      · exact List.pairwise_singleton _ s
      · rename_i t ts hcons
        rw [hcons] at ih
        split
        · exact ih
        · rename_i hne
          have hle : s ≤ t := hs t (mem_dropRepeats.mp (hcons ▸ List.mem_cons_self))
          have hlt : s < t := Std.lt_of_le_of_ne hle hne
          refine List.pairwise_cons.mpr ⟨?_, ih⟩
          intro u hu
          rcases List.mem_cons.mp hu with rfl | hu
          · exact hlt
          · exact String.lt_trans hlt ((List.pairwise_cons.mp ih).1 u hu)

/-- **A sorted set is in code-point order, without repetitions.** -/
theorem mem_sortedSet {s : String} {ss : List String} : s ∈ sortedSet ss ↔ s ∈ ss := by
  rw [sortedSet, mem_dropRepeats, List.mem_mergeSort]

theorem pairwise_sortedSet (ss : List String) : (sortedSet ss).Pairwise (· < ·) := by
  refine pairwise_dropRepeats ((List.pairwise_mergeSort ?_ ?_ ss).imp of_decide_eq_true)
  · intro a b c hab hbc
    simp only [decide_eq_true_eq] at hab hbc ⊢
    exact String.le_trans hab hbc
  · intro a b
    simpa using String.le_total a b

theorem dropRepeats_of_pairwise {ss : List String} (h : ss.Pairwise (· < ·)) : dropRepeats ss = ss := by
  induction ss with
  | nil => rfl
  | cons s ss ih =>
      obtain ⟨hs, hss⟩ := List.pairwise_cons.mp h
      rw [dropRepeats, ih hss]
      cases ss with
      | nil => rfl
      | cons t ts => exact if_neg (String.ne_of_lt (hs t List.mem_cons_self))

/-- What is sorted already stays as it is. -/
theorem sortedSet_of_pairwise {ss : List String} (h : ss.Pairwise (· < ·)) : sortedSet ss = ss := by
  have hsorted : ss.Pairwise fun a b => decide (a ≤ b) = true :=
    h.imp fun hlt => decide_eq_true (Std.le_of_lt hlt)
  rw [sortedSet, List.mergeSort_of_pairwise hsorted, dropRepeats_of_pairwise h]

end PageReach
