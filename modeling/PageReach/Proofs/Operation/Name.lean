import PageReach.Operation.Scope
import PageReach.Proofs.Text.Split

/-!
# Names without their dress

Taking the dress off a name either leaves the name alone or makes it shorter (`Shrinks`). A name
with an ending of documents always becomes shorter, so it never speaks of itself
(`cleanName_ne_of_isDocumentName`).
-/

namespace PageReach.Operation

open Text

variable {name body back front : String} {beginnings endings : List String} {f g : String → String}

/-! ## Texts with something taken off: `Shrinks` -/

theorem length_of_beforeSuffix? (h : beforeSuffix? name back = some body) :
    body.length + back.length = name.length := by
  rw [beforeSuffix?_eq_some_iff.mp h, String.length_append]

theorem length_of_afterPrefix? (h : afterPrefix? name front = some body) :
    front.length + body.length = name.length := by
  simp only [afterPrefix?, startsWith, Option.ite_none_right_eq_some, List.isPrefixOf_iff_prefix,
    Option.some.injEq] at h
  obtain ⟨hfront, rfl⟩ := h
  have hle := hfront.length_le
  simp only [String.length_toList] at hle
  simp [dropFront, String.length_toList]
  omega

theorem length_splitLineEnd (name : String) :
    (splitLineEnd name).1.length + (splitLineEnd name).2.length = name.length := by
  unfold splitLineEnd
  split
  · rename_i hbody
    simpa using length_of_beforeSuffix? hbody
  · simp

/-- What `f` does not leave alone becomes shorter. -/
def Shrinks (f : String → String) : Prop :=
  ∀ name, f name = name ∨ (f name).length < name.length

theorem Shrinks.comp (hg : Shrinks g) (hf : Shrinks f) : Shrinks fun name => g (f name) := by
  intro name
  rcases hf name with heq | hlt
  · simpa [heq] using hg name
  · rcases hg (f name) with heq | hlt'
    · simp [heq, hlt]
    · exact .inr (Nat.lt_trans hlt' hlt)

/-- What is left alone by `g` after `f` is left alone by each of them. -/
theorem Shrinks.fixed (hg : Shrinks g) (hf : Shrinks f) (h : g (f name) = name) :
    f name = name ∧ g name = name := by
  rcases hf name with heq | hlt
  · exact ⟨heq, by simpa [heq] using h⟩
  · have hlength := congrArg String.length h
    rcases hg (f name) with heq | hlt'
    · rw [heq] at hlength
      omega
    · omega

theorem shrinks_dropBeginning (hpos : ∀ b ∈ beginnings, 0 < b.length) :
    Shrinks (dropBeginning beginnings) := by
  intro name
  unfold dropBeginning
  cases hfind : beginnings.findSome? (afterPrefix? name) with
  | none => simp
  | some rest =>
      obtain ⟨front, hfront, hrest⟩ := List.exists_of_findSome?_eq_some hfind
      have hlength := length_of_afterPrefix? hrest
      have := hpos front hfront
      right
      simp
      omega

theorem shrinks_dropEnding (hpos : ∀ e ∈ endings, 0 < e.length) : Shrinks (dropEnding endings) := by
  intro name
  have hsplit := length_splitLineEnd name
  unfold dropEnding
  simp only
  cases hfind : endings.findSome? (beforeSuffix? (splitLineEnd name).1) with
  | none => simp
  | some body =>
      obtain ⟨back, hback, hbody⟩ := List.exists_of_findSome?_eq_some hfind
      have hlength := length_of_beforeSuffix? hbody
      have := hpos back hback
      right
      simp
      omega

/-- An ending that is there is taken off by `dropEnding`. -/
theorem dropEnding_ne (hpos : ∀ e ∈ endings, 0 < e.length) (hline : endsWith name "\n" = false)
    (hback : back ∈ endings) (hname : endsWith name back = true) :
    dropEnding endings name ≠ name := by
  have hsplit : splitLineEnd name = (name, "") := by
    simp [splitLineEnd, beforeSuffix?, hline]
  unfold dropEnding
  simp only [hsplit]
  cases hfind : endings.findSome? (beforeSuffix? name) with
  | none =>
      rw [List.findSome?_eq_none_iff] at hfind
      simpa [beforeSuffix?, hname] using hfind back hback
  | some body =>
      obtain ⟨back', hback', hbody⟩ := List.exists_of_findSome?_eq_some hfind
      have hlength := length_of_beforeSuffix? hbody
      have := hpos back' hback'
      simp only [String.append_empty]
      rintro rfl
      omega

/-! ## Clean names: `cleanName` -/

/-- A name that `cleanName` leaves alone has no ending that could be taken off. -/
theorem eq_of_cleanName (h : cleanName name = name) :
    dropEnding ["Document"] name = name ∧
      dropEnding ["Query", "Mutation", "Variables", "Subscription"] name = name := by
  have hkind : Shrinks (dropEnding ["Query", "Mutation", "Variables", "Subscription"]) :=
    shrinks_dropEnding (by decide)
  have hdocument : Shrinks (dropEnding ["Document"]) := shrinks_dropEnding (by decide)
  have hcapital : Shrinks (dropEnding ["_QUERY", "_MUTATION"]) := shrinks_dropEnding (by decide)
  have hbeginning : Shrinks (dropBeginning ["GET_", "FETCH_", "CREATE_", "UPDATE_", "DELETE_"]) :=
    shrinks_dropBeginning (by decide)
  unfold cleanName at h
  obtain ⟨-, h⟩ := ((hkind.comp hdocument).comp hcapital).fixed hbeginning h
  obtain ⟨-, h⟩ := (hkind.comp hdocument).fixed hcapital h
  exact hkind.fixed hdocument h

theorem not_endsWith_line (h : endsWith name back = true) {c : Char}
    (hback : back.toList.getLast? = some c) (hc : c ≠ '\n') : endsWith name "\n" = false := by
  obtain ⟨front, hname⟩ := List.isSuffixOf_iff_suffix.mp h
  have hlast : name.toList.getLast? = some c := by simp [← hname, hback]
  rw [Bool.eq_false_iff]
  intro hline
  obtain ⟨front', hname'⟩ := List.isSuffixOf_iff_suffix.mp hline
  rw [← hname'] at hlast
  simp at hlast
  exact hc hlast.symm

/-- The name of a document is not left alone by `cleanName`. -/
theorem cleanName_ne_of_isDocumentName (h : Scope.isDocumentName name = true) :
    cleanName name ≠ name := by
  intro hclean
  obtain ⟨hdocument, hkind⟩ := eq_of_cleanName hclean
  simp only [Scope.isDocumentName, Scope.documentEndings, List.any_cons, List.any_nil,
    Bool.or_false, Bool.or_eq_true] at h
  rcases h with h | h | h
  · exact dropEnding_ne (by decide) (not_endsWith_line h rfl (by decide)) (by simp) h hdocument
  · exact dropEnding_ne (by decide) (not_endsWith_line h rfl (by decide)) (by simp) h hkind
  · exact dropEnding_ne (by decide) (not_endsWith_line h rfl (by decide)) (by simp) h hkind

end PageReach.Operation
