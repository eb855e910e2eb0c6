import PageReach.Data.Json5
import PageReach.Proofs.Table

/-!
# Objects that are read

A document may give several fields of one name. In the value that is read from it, each name stands
once, in every object however deep (`Value.Distinct`, `distinct_of_parse?`). Scalars hold no objects
(`distinct_of_scalar?`), and for lists and objects the induction is on the fuel (`readsDistinct`).
-/

namespace PageReach

/-- In every object within the value, each name stands once. -/
inductive Value.Distinct : Value → Prop where
  | null : Distinct .null
  | bool (b : Bool) : Distinct (.bool b)
  | int (n : Int) : Distinct (.int n)
  | float (x : Binary64) : Distinct (.float x)
  | text (s : String) : Distinct (.text s)
  | list {items : List Value} (hitems : ∀ v ∈ items, Distinct v) : Distinct (.list items)
  | object {fields : List (String × Value)} (hnames : (fields.map (·.1)).Nodup)
      (hfields : ∀ p ∈ fields, Distinct p.2) : Distinct (.object fields)

theorem Value.distinct_ofFields {fields : List (String × Value)} (h : ∀ p ∈ fields, p.2.Distinct) :
    (Value.ofFields fields).Distinct := by
  refine .object (Table.nodup_keys_ofList fields) fun p hp => ?_
  rcases Table.mem_entries_insertAll hp with hp | hp
  · exact h p hp
  · cases hp

namespace Json5

variable {cs rest : List Char} {v : Value} {fuel : Nat}

/-! ## Scalars: `scalar?` -/

theorem distinct_of_decimal? {signs : List Char} (h : decimal? signs cs = some (v, rest)) :
    v.Distinct := by
  unfold decimal? at h
  simp only at h
  split at h
  · cases h
  · split at h
    · cases h
    · split at h
      · obtain ⟨n, -, hn⟩ := Option.map_eq_some_iff.mp h
        cases hn
        exact .int n
      · obtain ⟨x, -, hx⟩ := Option.map_eq_some_iff.mp h
        cases hx
        exact .float x

theorem distinct_of_hexadecimal? (h : hexadecimal? cs = some (v, rest)) : v.Distinct := by
  unfold hexadecimal? at h
  split at h
  · split at h
    · dsimp only at h
      split at h
      · cases h
      · cases h
        exact .int _
    · cases h
  · cases h

theorem distinct_of_unsigned? {minuses : Nat} (h : unsigned? minuses cs = some (v, rest)) :
    v.Distinct := by
  have hword {word : String} {x : Binary64}
      (h : (if word.toList.isPrefixOf cs && minuses ≤ 1 then some (Value.float x, cs.drop word.length)
        else none) = some (v, rest)) : v.Distinct := by
    split at h
    · cases h
      exact .float x
    · cases h
  unfold unsigned? at h
  rcases Option.or_eq_some_iff.mp h with h | ⟨-, h⟩
  · rcases Option.or_eq_some_iff.mp h with h | ⟨-, h⟩
    · exact distinct_of_decimal? h
    · split at h
      · exact distinct_of_hexadecimal? h
      · cases h
  · rcases Option.or_eq_some_iff.mp h with h | ⟨-, h⟩
    · exact hword h
    · exact hword h

theorem distinct_of_number? {minuses : Nat} (h : number? minuses cs = some (v, rest)) :
    v.Distinct := by
  fun_induction number? minuses cs with
  | case1 minuses cs ih => exact ih h
  | case2 minuses cs ih => exact ih h
  | case3 minuses cs => exact distinct_of_unsigned? h

theorem distinct_of_word? (h : word? cs = some (v, rest)) : v.Distinct := by
  obtain ⟨⟨w, u⟩, hmem, hw⟩ := List.exists_of_findSome?_eq_some h
  dsimp only at hw
  split at hw
  · cases hw
    simp only [List.mem_cons, Prod.mk.injEq, List.not_mem_nil, or_false] at hmem
    rcases hmem with ⟨-, rfl⟩ | ⟨-, rfl⟩ | ⟨-, rfl⟩
    · exact .null
    · exact .bool true
    · exact .bool false
  · cases hw

theorem distinct_of_scalar? (h : scalar? cs = some (v, rest)) : v.Distinct := by
  unfold scalar? at h
  rcases Option.or_eq_some_iff.mp h with h | ⟨-, h⟩
  · rcases Option.or_eq_some_iff.mp h with h | ⟨-, h⟩
    · exact distinct_of_word? h
    · exact distinct_of_number? h
  · obtain ⟨s, -, hs⟩ := Option.map_eq_some_iff.mp h
    cases hs
    exact .text _

/-! ## Lists and objects: `readsDistinct` -/

/-- What is read with this `fuel` is `Distinct`: a value, the elements of a list, the fields of an
object. -/
structure ReadsDistinct (fuel : Nat) : Prop where
  value : ∀ {cs v rest}, value? fuel cs = some (v, rest) → v.Distinct
  elements : ∀ {cs vs rest}, elements? fuel cs = some (vs, rest) → ∀ v ∈ vs, v.Distinct
  members : ∀ {cs fs rest}, members? fuel cs = some (fs, rest) → ∀ p ∈ fs, p.2.Distinct

theorem distinct_of_value? (ih : ReadsDistinct fuel) (h : value? (fuel + 1) cs = some (v, rest)) :
    v.Distinct := by
  rw [value?.eq_def] at h
  split at h
  · cases h
  · obtain ⟨⟨vs, rest'⟩, hvs, hv⟩ := Option.map_eq_some_iff.mp h
    cases ‹fuel + 1 = _›
    cases hv
    exact .list (ih.elements hvs)
  · obtain ⟨⟨fs, rest'⟩, hfs, hv⟩ := Option.map_eq_some_iff.mp h
    cases ‹fuel + 1 = _›
    cases hv
    exact Value.distinct_ofFields (ih.members hfs)
  · exact distinct_of_scalar? h

theorem distinct_of_elements? {vs : List Value} (ih : ReadsDistinct fuel)
    (h : elements? (fuel + 1) cs = some (vs, rest)) : ∀ v ∈ vs, v.Distinct := by
  rw [elements?.eq_def] at h
  split at h
  · cases h
  · cases h
    simp
  · cases ‹fuel + 1 = _›
    split at h
    · cases h
    · rename_i v _ hv
      have hfirst : v.Distinct := ih.value hv
      split at h
      · cases h
        simpa using hfirst
      · obtain ⟨⟨us, rest'⟩, hus, hvs⟩ := Option.map_eq_some_iff.mp h
        cases hvs
        exact List.forall_mem_cons.mpr ⟨hfirst, ih.elements hus⟩
      · cases h

theorem distinct_of_members? {fs : List (String × Value)} (ih : ReadsDistinct fuel)
    (h : members? (fuel + 1) cs = some (fs, rest)) : ∀ p ∈ fs, p.2.Distinct := by
  rw [members?.eq_def] at h
  split at h
  · cases h
  · cases h
    simp
  · cases ‹fuel + 1 = _›
    split at h
    · cases h
    · split at h
      · split at h
        · cases h
        · rename_i v _ hv
          have hfirst : v.Distinct := ih.value hv
          split at h
          · cases h
            simpa using hfirst
          · obtain ⟨⟨us, rest'⟩, hus, hfs⟩ := Option.map_eq_some_iff.mp h
            cases hfs
            exact List.forall_mem_cons.mpr ⟨hfirst, ih.members hus⟩
          · cases h
      · cases h

theorem readsDistinct (fuel : Nat) : ReadsDistinct fuel := by
  induction fuel with
  | zero => constructor <;> intro _ _ _ h <;> cases h
  | succ fuel ih =>
      exact ⟨distinct_of_value? ih, distinct_of_elements? ih, distinct_of_members? ih⟩

/-- **In a value that `parse?` reads, each name stands once.** -/
theorem distinct_of_parse? {source : String} (h : parse? source = some v) : v.Distinct := by
  unfold parse? at h
  dsimp only at h
  split at h
  · rename_i hvalue
    split at h
    · cases h
      exact (readsDistinct _).value hvalue
    · cases h
  · cases h

end Json5

end PageReach
