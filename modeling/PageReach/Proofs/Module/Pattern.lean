import PageReach.Proofs.Module.Misled
import PageReach.Proofs.Text.Split

/-!
# What path patterns stand for

A pattern with a star covers a specifier if some text, put in the place of the star, makes the
pattern the specifier (`Fills`, `Covers`). There is at most one such text (`Fills.middle_unique`),
and the same text is put into the targets (`Instantiates`). Only the first star counts; further ones
are characters like any others.

* **Coverage** (`of?_eq_star_iff`, `of?_eq_exact_iff`, `of?_eq_none_iff`): `Coverage.of?` finds this
  text.
* **Tables** (`Contributes`, `expandTargets_eq`, `targets_in_declared_order`): the targets of a
  specifier, pattern by pattern.
-/

namespace PageReach

open Text

variable {text pattern specifier middle middle' front back whole whole' target path : String}

namespace Coverage

/-! ## Putting a text in: `Fills` -/

/-- `whole` is `text` with `middle` in the place of its first star. -/
def Fills (middle text whole : String) : Prop :=
  ∃ front back, '*' ∉ front.toList ∧ text = front ++ "*" ++ back ∧ whole = front ++ middle ++ back

/-- What becomes of `target`: its first star is replaced by `middle`, and a target without a star
stays. -/
def Instantiates (middle target path : String) : Prop :=
  Fills middle target path ∨ '*' ∉ target.toList ∧ path = target

/-- The pattern is the specifier, or some text `Fills` its star so that it is. -/
def Covers (pattern specifier : String) : Prop :=
  (∃ middle, Fills middle pattern specifier) ∨ '*' ∉ pattern.toList ∧ pattern = specifier

theorem aroundStar?_eq_some_iff :
    aroundStar? text = some (front, back) ↔ '*' ∉ front.toList ∧ text = front ++ "*" ++ back := by
  constructor
  · intro h
    obtain ⟨⟨before, after⟩, hcut, heq⟩ := Option.map_eq_some_iff.mp h
    cases heq
    by_cases hstar : '*' ∈ text.toList
    · obtain ⟨before', after', hsplit, hbefore⟩ := List.eq_append_cons_of_mem hstar
      rw [hsplit, cutAt?_append_cons hbefore] at hcut
      cases hcut
      refine ⟨by simpa using hbefore, ?_⟩
      rw [← String.toList_inj]
      simp [hsplit]
    · rw [cutAt?_of_not_mem hstar] at hcut
      cases hcut
  · rintro ⟨hfront, rfl⟩
    simp [aroundStar?, cutAt?_append_cons hfront]

theorem aroundStar?_eq_none_iff : aroundStar? text = none ↔ '*' ∉ text.toList := by
  constructor
  · intro h hstar
    obtain ⟨before, after, hsplit, hbefore⟩ := List.eq_append_cons_of_mem hstar
    simp [aroundStar?, hsplit, cutAt?_append_cons hbefore] at h
  · intro h
    simp [aroundStar?, cutAt?_of_not_mem h]

theorem Fills.mem (h : Fills middle text whole) : '*' ∈ text.toList := by
  obtain ⟨front, back, -, rfl, -⟩ := h
  simp

/-- The places of the first star and of what is around it are the same for all texts that are put in. -/
theorem fills_iff (h : aroundStar? text = some (front, back)) :
    Fills middle text whole ↔ whole = front ++ middle ++ back := by
  constructor
  · rintro ⟨front', back', hfront', htext, rfl⟩
    have h' := aroundStar?_eq_some_iff.mpr ⟨hfront', htext⟩
    cases h.symm.trans h'
    rfl
  · intro hwhole
    obtain ⟨hfront, htext⟩ := aroundStar?_eq_some_iff.mp h
    exact ⟨front, back, hfront, htext, hwhole⟩

theorem Fills.exists_around (h : Fills middle text whole) :
    ∃ front back, aroundStar? text = some (front, back) ∧ whole = front ++ middle ++ back := by
  obtain ⟨front, back, hfront, htext, hwhole⟩ := h
  exact ⟨front, back, aroundStar?_eq_some_iff.mpr ⟨hfront, htext⟩, hwhole⟩

/-- What was put in can be told from the result: `middle` is unique. -/
theorem Fills.middle_unique (h : Fills middle text whole) (h' : Fills middle' text whole) :
    middle = middle' := by
  obtain ⟨front, back, haround, hwhole⟩ := h.exists_around
  have hwhole' := (fills_iff haround).mp h'
  rw [hwhole, ← String.toList_inj] at hwhole'
  simpa [String.toList_inj] using hwhole'

/-! ## Coverage: `of?` -/

/-- `front` and `back` may not overlap, so that they can be taken off one after the other. -/
theorem between?_eq_some_iff :
    between? whole front back = some middle ↔ whole = front ++ middle ++ back := by
  simp only [between?, startsWith, endsWith, dropFront, dropBack, Option.ite_none_right_eq_some,
    Bool.and_eq_true, List.isPrefixOf_iff_prefix, List.isSuffixOf_iff_suffix, decide_eq_true_eq,
    Option.some.injEq, ← String.toList_inj, ← String.length_toList, String.toList_ofList,
    String.toList_append]
  constructor
  · rintro ⟨⟨⟨⟨rest, hrest⟩, hback⟩, hlength⟩, hmiddle⟩
    -- what is left after the front still ends with the back
    have hsuffix : back.toList <:+ rest := by
      refine List.suffix_of_suffix_length_le hback ⟨front.toList, hrest⟩ ?_
      have := congrArg List.length hrest
      rw [List.length_append] at this
      omega
    obtain ⟨kept, rfl⟩ := hsuffix
    rw [← hrest] at hmiddle ⊢
    have hkept : kept = middle.toList := by simpa using hmiddle
    rw [hkept, List.append_assoc]
  · intro h
    rw [h]
    refine ⟨⟨⟨?_, ?_⟩, ?_⟩, ?_⟩
    · exact ⟨middle.toList ++ back.toList, by simp⟩
    · exact ⟨front.toList ++ middle.toList, rfl⟩
    · simp
    · simp

theorem of?_eq_star_iff :
    of? pattern specifier = some (.star middle) ↔ Fills middle pattern specifier := by
  unfold of?
  cases haround : aroundStar? pattern with
  | none =>
      have hstar := aroundStar?_eq_none_iff.mp haround
      refine iff_of_false ?_ fun h => hstar h.mem
      simp only
      split <;> simp
  | some ends =>
      obtain ⟨front, back⟩ := ends
      simp [fills_iff haround, between?_eq_some_iff]

theorem of?_eq_exact_iff :
    of? pattern specifier = some .exact ↔ '*' ∉ pattern.toList ∧ pattern = specifier := by
  rw [← aroundStar?_eq_none_iff]
  unfold of?
  cases aroundStar? pattern with
  | none => simp [eq_comm]
  | some ends => simp

theorem of?_eq_none_iff : of? pattern specifier = none ↔ ¬ Covers pattern specifier := by
  rw [Option.eq_none_iff_forall_ne_some, Covers, not_or, not_exists, ← of?_eq_exact_iff]
  simp only [← of?_eq_star_iff]
  constructor
  · exact fun h => ⟨fun middle => h (.star middle), h .exact⟩
  · rintro ⟨hstar, hexact⟩ (_ | middle)
    · exact hexact
    · exact hstar middle

theorem instantiates_iff : Instantiates middle target path ↔ (star middle).apply target = path := by
  rw [eq_comm]
  unfold Instantiates apply
  cases haround : aroundStar? target with
  | none =>
      have hstar := aroundStar?_eq_none_iff.mp haround
      simp only [hstar, not_false_eq_true, true_and]
      exact or_iff_right fun h => hstar h.mem
  | some ends =>
      obtain ⟨front, back⟩ := ends
      have hstar : '*' ∈ target.toList := ((fills_iff haround).mpr rfl : Fills "" target _).mem
      simp [fills_iff haround, hstar]

/-! ## Tables of patterns: `expandTargets` -/

/-- What a pattern with its targets adds to the targets of a specifier. -/
inductive Contributes (specifier : String) : String × List String → List String → Prop where
  /-- The pattern is the specifier. -/
  | exact {targets : List String} :
    '*' ∉ specifier.toList → Contributes specifier (specifier, targets) targets
  /-- The star stands for `middle`. -/
  | star {pattern middle : String} {targets paths : List String} :
    Fills middle pattern specifier → List.Forall₂ (Instantiates middle) targets paths →
    Contributes specifier (pattern, targets) paths
  /-- The pattern does not cover the specifier. -/
  | nothing {pattern : String} {targets : List String} :
    ¬ Covers pattern specifier → Contributes specifier (pattern, targets) []

/-- What a pattern `Contributes`, worked out. -/
def contribution (specifier : String) (entry : String × List String) : List String :=
  match of? entry.1 specifier with
  | none => []
  | some c => entry.2.map c.apply

theorem forall₂_instantiates_iff {targets paths : List String} :
    List.Forall₂ (Instantiates middle) targets paths ↔ targets.map (star middle).apply = paths := by
  rw [← List.forall₂_eq_eq_eq, List.forall₂_map_left_iff]
  exact ⟨.imp fun _ _ => instantiates_iff.mp, .imp fun _ _ => instantiates_iff.mpr⟩

theorem contributes_iff {entry : String × List String} {paths : List String} :
    Contributes specifier entry paths ↔ contribution specifier entry = paths := by
  unfold contribution
  constructor
  · intro h
    cases h with
    | exact hstar =>
        rw [of?_eq_exact_iff.mpr ⟨hstar, rfl⟩]
        exact List.map_id _
    | star hfills hpaths =>
        rw [of?_eq_star_iff.mpr hfills]
        exact forall₂_instantiates_iff.mp hpaths
    | nothing hcovers => rw [of?_eq_none_iff.mpr hcovers]
  · rintro rfl
    obtain ⟨pattern, targets⟩ := entry
    cases hof : of? pattern specifier with
    | none => exact .nothing (of?_eq_none_iff.mp hof)
    | some c =>
        cases c with
        | exact =>
            obtain ⟨hstar, rfl⟩ := of?_eq_exact_iff.mp hof
            simpa [show apply .exact = id from rfl] using Contributes.exact hstar
        | star middle =>
            exact .star (of?_eq_star_iff.mp hof) (forall₂_instantiates_iff.mpr rfl)

end Coverage

open Coverage

theorem expandTargets_eq (specifier : String) (patterns : Table (List String)) :
    expandTargets specifier patterns = (patterns.entries.map (contribution specifier)).flatten := by
  rw [← List.flatMap_def]
  rfl

/-- The targets of the `patterns` that cover `specifier`, each with how its pattern does so. -/
def coveredTexts (specifier : String) (patterns : Table (List String)) : List (Coverage × String) :=
  patterns.entries.flatMap fun entry =>
    (of? entry.1 specifier).toList.flatMap fun c => entry.2.map (c, ·)

theorem expandTargets_eq_map (specifier : String) (patterns : Table (List String)) :
    expandTargets specifier patterns = (coveredTexts specifier patterns).map fun x => x.1.apply x.2 := by
  simp only [expandTargets, coveredTexts, List.map_flatMap, List.map_map]
  congr 1
  funext entry
  cases of? entry.1 specifier <;> simp

theorem coveredTargets_text (specifier : String) (patterns : Table (List String)) :
    coveredTargets specifier (patterns.map (·.map .text)) =
      (coveredTexts specifier patterns).map fun x => (x.1, .text x.2) := by
  simp only [coveredTargets, coveredTexts, Table.map, List.flatMap_map, List.map_flatMap, List.map_map]
  congr 1
  funext entry
  cases of? entry.1 specifier <;> simp

/-- Targets that are known to be text are expanded by `expandTargets` in the same way as those that
may be something else. -/
theorem expandValues_text (specifier : String) (patterns : Table (List String)) :
    expandValues specifier (patterns.map (·.map .text)) =
      .ok ((expandTargets specifier patterns).map .text) := by
  have happly (c : Coverage) (target : String) :
      c.applyValue (.text target) = pure (.text (c.apply target)) := by
    cases c <;> rfl
  rw [expandValues_eq, coveredTargets_text, expandTargets_eq_map, List.mapM_map]
  simp only [Function.comp_def, happly, List.mapM_pure, List.map_map]
  rfl

/-- **The targets of a specifier are those of the patterns that cover it, in the order in which they are
declared.** For each pattern in turn, the targets are added as they are if the pattern is the specifier,
with the text for the star put in if there is such a text, and not at all otherwise. That settles the
result, since at most one text makes a pattern the specifier. -/
theorem targets_in_declared_order (specifier : String) (patterns : Table (List String)) :
    (∀ paths, expandTargets specifier patterns = paths ↔ ∃ pieces,
      List.Forall₂ (Contributes specifier) patterns.entries pieces ∧ pieces.flatten = paths) ∧
    (∀ pattern middle middle', Fills middle pattern specifier → Fills middle' pattern specifier →
      middle = middle') ∧
    expandValues specifier (patterns.map (·.map .text)) =
      .ok ((expandTargets specifier patterns).map .text) := by
  have hpieces (pieces : List (List String)) :
      List.Forall₂ (Contributes specifier) patterns.entries pieces ↔
        patterns.entries.map (contribution specifier) = pieces := by
    rw [← List.forall₂_eq_eq_eq, List.forall₂_map_left_iff]
    exact ⟨.imp fun _ _ => contributes_iff.mp, .imp fun _ _ => contributes_iff.mpr⟩
  refine ⟨fun paths => ?_, fun _ _ _ h h' => h.middle_unique h', expandValues_text specifier patterns⟩
  simp only [hpieces, exists_eq_left', expandTargets_eq]

/-- Ends that overlap in the specifier do not count, and what is put in may be empty. -/
example : expandTargets "aba" ⟨[("ab*ba", ["no/*"]), ("ab*a", ["yes/*", "all"])]⟩ = ["yes/", "all"] := by
  decide

/-- Only the first star of a pattern and of a target is put in for. -/
example : expandTargets "aXb*c" ⟨[("a*b*c", ["t/*/u/*"])]⟩ = ["t/X/u/*"] := by
  decide

end PageReach
