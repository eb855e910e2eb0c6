import PageReach.Text.Split

/-!
# Taking apart what was put together

The pieces of a text are the texts between its separators: they hold no separator
(`not_mem_of_mem_splitChars`), and joined by separators they give the text again
(`intercalate_splitChars`); and pieces that were joined are found again (`splitChars_intercalate`).
A text is cut at the first place where something occurs (`cutAt?_append_cons`), and what stands
before an ending is found by taking the ending off (`beforeSuffix?_eq_some_iff`).
-/

namespace PageReach.Text

variable {sep c : Char} {cs u : List Char}

/-! ## Pieces between separators: `splitChars` -/

theorem splitChars_cons (sep c : Char) (cs : List Char) :
    splitChars sep (c :: cs) =
      if c = sep then [] :: splitChars sep cs
      else
        match splitChars sep cs with
        | [] => [[c]]
        | piece :: pieces => (c :: piece) :: pieces := rfl

theorem splitChars_of_not_mem (h : sep ∉ cs) : splitChars sep cs = [cs] := by
  induction cs with
  | nil => rfl
  | cons c cs ih =>
      rw [List.mem_cons, not_or] at h
      rw [splitChars_cons, if_neg (Ne.symm h.1), ih h.2]

theorem splitChars_append {front : List Char} (h : sep ∉ front) (rest : List Char) :
    splitChars sep (front ++ sep :: rest) = front :: splitChars sep rest := by
  induction front with
  | nil => rw [List.nil_append, splitChars_cons, if_pos rfl]
  | cons c front ih =>
      rw [List.mem_cons, not_or] at h
      rw [List.cons_append, splitChars_cons, if_neg (Ne.symm h.1), ih h.2]

/-- Every row of characters is one piece, or a piece with a separator and further pieces after it. -/
theorem splitChars_induct (sep : Char) {motive : List Char → Prop}
    (last : ∀ piece, sep ∉ piece → motive piece)
    (more : ∀ piece rest, sep ∉ piece → motive rest → motive (piece ++ sep :: rest))
    (cs : List Char) : motive cs := by
  induction hn : cs.length using Nat.strongRecOn generalizing cs with
  | _ n ih =>
      by_cases hsep : sep ∈ cs
      · obtain ⟨piece, rest, rfl, hpiece⟩ := List.eq_append_cons_of_mem hsep
        exact more piece rest hpiece (ih rest.length (by simp at hn; omega) rest rfl)
      · exact last cs hsep

theorem splitChars_ne_nil (sep : Char) (cs : List Char) : splitChars sep cs ≠ [] := by
  induction cs using splitChars_induct sep with
  | last piece h => simp [splitChars_of_not_mem h]
  | more piece rest h ih => simp [splitChars_append h]

/-- `splitChars` cuts at every separator, so that each one can be cut at first. -/
theorem splitChars_append_sep (sep : Char) (cs rest : List Char) :
    splitChars sep (cs ++ sep :: rest) = splitChars sep cs ++ splitChars sep rest := by
  induction cs using splitChars_induct sep with
  | last piece h =>
      rw [splitChars_append h, splitChars_of_not_mem h]
      rfl
  | more piece tail h ih =>
      rw [List.append_assoc, List.cons_append, splitChars_append h, splitChars_append h, ih]
      rfl

theorem not_mem_of_mem_splitChars {piece : List Char} (h : piece ∈ splitChars sep cs) :
    sep ∉ piece := by
  induction cs using splitChars_induct sep with
  | last cs hcs =>
      rw [splitChars_of_not_mem hcs, List.mem_singleton] at h
      exact h ▸ hcs
  | more first rest hfirst ih =>
      rw [splitChars_append hfirst, List.mem_cons] at h
      rcases h with rfl | h
      · exact hfirst
      · exact ih h

theorem intercalate_splitChars (sep : Char) (cs : List Char) :
    [sep].intercalate (splitChars sep cs) = cs := by
  induction cs using splitChars_induct sep with
  | last piece h => simp [splitChars_of_not_mem h]
  | more piece rest h ih =>
      rw [splitChars_append h]
      obtain ⟨next, pieces, hsplit⟩ := List.exists_cons_of_ne_nil (splitChars_ne_nil sep rest)
      rw [hsplit] at ih ⊢
      simp [List.intercalate_cons_cons, ih]

theorem splitChars_intercalate {pieces : List (List Char)} (hne : pieces ≠ [])
    (h : ∀ piece ∈ pieces, sep ∉ piece) : splitChars sep ([sep].intercalate pieces) = pieces := by
  induction pieces with
  | nil => exact absurd rfl hne
  | cons piece pieces ih =>
      rw [List.forall_mem_cons] at h
      cases pieces with
      | nil => simp [splitChars_of_not_mem h.1]
      | cons next pieces =>
          rw [List.intercalate_cons_cons, List.append_assoc, List.singleton_append,
            splitChars_append h.1, ih (by simp) h.2]

theorem mem_of_mem_intercalate {pieces : List (List Char)} (h : c ∈ [sep].intercalate pieces) :
    c = sep ∨ ∃ piece ∈ pieces, c ∈ piece := by
  induction pieces with
  | nil => simp at h
  | cons piece pieces ih =>
      cases pieces with
      | nil => exact .inr ⟨piece, by simp, by simpa using h⟩
      | cons next pieces =>
          rw [List.intercalate_cons_cons, List.mem_append, List.mem_append, List.mem_singleton] at h
          rcases h with (h | h) | h
          · exact .inr ⟨piece, by simp, h⟩
          · exact .inl h
          · refine (ih h).imp_right ?_
            rintro ⟨other, hother, hc⟩
            exact ⟨other, List.mem_cons_of_mem _ hother, hc⟩

theorem mem_of_mem_splitChars {piece : List Char} (h : piece ∈ splitChars sep cs) (hc : c ∈ piece) :
    c ∈ cs := by
  induction cs using splitChars_induct sep with
  | last cs hcs =>
      rw [splitChars_of_not_mem hcs, List.mem_singleton] at h
      exact h ▸ hc
  | more first rest hfirst ih =>
      rw [splitChars_append hfirst, List.mem_cons] at h
      rcases h with rfl | h
      · exact List.mem_append_left _ hc
      · exact List.mem_append_right _ (List.mem_cons_of_mem _ (ih h))

theorem not_mem_of_mem_split {s piece : String} (h : piece ∈ split sep s) : sep ∉ piece.toList := by
  obtain ⟨cs, hcs, rfl⟩ := List.mem_map.mp h
  simpa using not_mem_of_mem_splitChars hcs

/-- A character other than `sep` stands in one of the pieces. -/
theorem exists_mem_split {s : String} (hc : c ∈ s.toList) (hsep : c ≠ sep) :
    ∃ piece ∈ split sep s, c ∈ piece.toList := by
  rw [← intercalate_splitChars sep s.toList] at hc
  obtain ⟨piece, hpiece, hmem⟩ := (mem_of_mem_intercalate hc).resolve_left hsep
  exact ⟨String.ofList piece, List.mem_map_of_mem hpiece, by simpa using hmem⟩

theorem mem_of_mem_split {s piece : String} (h : piece ∈ split sep s) (hc : c ∈ piece.toList) :
    c ∈ s.toList := by
  obtain ⟨cs, hcs, rfl⟩ := List.mem_map.mp h
  exact mem_of_mem_splitChars hcs (by simpa using hc)

/-! ## Cutting at a character: `cutAt?` -/

theorem cutAt?_of_not_mem (h : c ∉ cs) : cutAt? [c] cs = none := by
  induction cs with
  | nil => rfl
  | cons d cs ih =>
      rw [List.mem_cons, not_or] at h
      simp [cutAt?, h.1, ih h.2]

theorem cutAt?_append_cons (h : c ∉ u) (v : List Char) : cutAt? [c] (u ++ c :: v) = some (u, v) := by
  induction u with
  | nil => simp [cutAt?]
  | cons d u ih =>
      rw [List.mem_cons, not_or] at h
      simp [cutAt?, h.1, ih h.2]

/-! ## Endings: `beforeSuffix?` -/

theorem beforeSuffix?_eq_some_iff {s back front : String} :
    beforeSuffix? s back = some front ↔ s = front ++ back := by
  simp only [beforeSuffix?, endsWith, dropBack, Option.ite_none_right_eq_some,
    List.isSuffixOf_iff_suffix, Option.some.injEq, ← String.length_toList]
  constructor
  · rintro ⟨⟨kept, hkept⟩, rfl⟩
    rw [← String.toList_inj, String.toList_append, String.toList_ofList, ← hkept]
    simp
  · rintro rfl
    simp

theorem endsWith_iff {s back : String} : endsWith s back = true ↔ ∃ front, s = front ++ back := by
  rw [endsWith, List.isSuffixOf_iff_suffix]
  constructor
  · rintro ⟨kept, hkept⟩
    exact ⟨String.ofList kept, by rw [← String.toList_inj]; simp [hkept]⟩
  · rintro ⟨front, rfl⟩
    exact ⟨front.toList, by simp⟩

end PageReach.Text
