import PageReach.Data.Json

/-!
# Numbers that are too long

Reading a document takes characters off its front (`Takes`). It fails on account of a number only if
the document holds more digits in a row than an integer may have, and it does fail on a document
that is nothing but such digits.

* **Integers** (`int?_isSome_iff`): digits are an integer unless there are more than `maxDigits`.
* **Documents** (`takes_string`, `takes_number`, `takesWithin`): whatever is read, only numbers that
  are there can be too long. Strings, numbers and values are the layers of the argument.
* **Refusals** (`hasLongNumber_of_parse`, `parse_of_digits`): both directions, for whole documents.
-/

namespace PageReach

open Text

/-! ## Integers: `int?` -/

namespace Numeral

variable {cs ds : List Char}

theorem trim_of_ends {p : Char → Bool} {s : String} (hfirst : ∀ c, s.toList.head? = some c → p c = false)
    (hlast : ∀ c, s.toList.getLast? = some c → p c = false) : trim p s = s := by
  have hkeep (cs : List Char) (h : ∀ c, cs.head? = some c → p c = false) : cs.dropWhile p = cs := by
    cases cs with
    | nil => rfl
    | cons c cs => exact List.dropWhile_cons_of_neg (by simp [h c rfl])
  apply String.toList_inj.mp
  rw [trim, trimEnd, trimStart, String.toList_ofList, String.toList_ofList, hkeep _ hfirst,
    dropEndWhile, hkeep _ (by simpa using hlast), List.reverse_reverse]

theorem toNat_of_isDigit {c : Char} (h : c.isDigit = true) : 48 ≤ c.toNat ∧ c.toNat ≤ 57 := by
  simp only [Char.isDigit, Bool.and_eq_true, decide_eq_true_eq, ge_iff_le,
    UInt32.le_iff_toNat_le] at h
  exact h

theorem ne_of_isDigit {c d : Char} (hc : c.isDigit = true) (hd : d.isDigit = false) : c ≠ d := by
  rintro rfl
  rw [hc] at hd
  cases hd

theorem not_isBlank_of_isDigit {c : Char} (h : c.isDigit = true) : isBlank c = false := by
  have := toNat_of_isDigit h
  unfold isBlank
  simp
  omega

theorem digitsWithUnderscores?_of_digits {between : Bool} (hds : ∀ c ∈ ds, c.isDigit = true)
    (hsome : between = true ∨ ds ≠ []) :
    ∃ ns, digitsWithUnderscores? between ds = some ns ∧ ns.length = ds.length := by
  induction ds generalizing between with
  | nil =>
      refine ⟨[], ?_, rfl⟩
      simpa [digitsWithUnderscores?] using hsome
  | cons c ds ih =>
      rw [List.forall_mem_cons] at hds
      obtain ⟨ns, hns, hlength⟩ := ih hds.2 (.inl rfl : true = true ∨ ds ≠ [])
      have hnat := toNat_of_isDigit hds.1
      have hvalue : digitValue? c = some (c.toNat - 48) := by
        rw [digitValue?, if_pos (by omega), if_pos hds.1]
      refine ⟨(c.toNat - 48) :: ns, ?_, by simp [hlength]⟩
      rw [digitsWithUnderscores?, hvalue, hns]
      exact ne_of_isDigit hds.1 (by decide)

theorem sign_of_digits {minus : List Char} (hminus : minus = [] ∨ minus = ['-'])
    (hds : ∀ c ∈ ds, c.isDigit = true) : (sign (minus ++ ds)).2 = ds := by
  rcases hminus with rfl | rfl
  · cases ds with
    | nil => rfl
    | cons c ds =>
        have hc := hds c List.mem_cons_self
        rw [List.nil_append, sign]
        · exact fun rest heq => ne_of_isDigit hc (by decide) (List.cons.inj heq).1
        · exact fun rest heq => ne_of_isDigit hc (by decide) (List.cons.inj heq).1
  · rfl

/-- Digits with or without a minus are an integer unless there are more than `maxDigits`. -/
theorem int?_isSome_iff {minus : List Char} (hminus : minus = [] ∨ minus = ['-'])
    (hds : ∀ c ∈ ds, c.isDigit = true) (hne : ds ≠ []) :
    (int? (String.ofList (minus ++ ds))).isSome = true ↔ ds.length ≤ maxDigits := by
  have hchars : ∀ c ∈ minus ++ ds, isBlank c = false := by
    intro c hc
    rcases List.mem_append.mp hc with hc | hc
    · rcases hminus with rfl | rfl
      · cases hc
      · rw [List.mem_singleton.mp hc]
        decide
    · exact not_isBlank_of_isDigit (hds c hc)
  have htrim : trim isBlank (String.ofList (minus ++ ds)) = String.ofList (minus ++ ds) := by
    apply trim_of_ends
    · intro c hc
      rw [String.toList_ofList] at hc
      exact hchars c (List.mem_of_mem_head? hc)
    · intro c hc
      rw [String.toList_ofList] at hc
      exact hchars c (List.mem_of_getLast? hc)
  obtain ⟨ns, hns, hlength⟩ :=
    digitsWithUnderscores?_of_digits hds (.inr hne : false = true ∨ ds ≠ [])
  have hsign := sign_of_digits hminus hds
  unfold int?
  rw [htrim, String.toList_ofList]
  generalize sign (minus ++ ds) = signed at hsign ⊢
  obtain ⟨negative, cs⟩ := signed
  subst hsign
  simp only [hns, hlength]
  split
  · rename_i hle
    simp [hle]
  · rename_i hlong
    simp [hlong]

end Numeral

/-! ## Documents: `Takes` -/

namespace Json

open Numeral

variable {α β : Type} {cs rest : List Char}

/-- There are more digits in a row in `cs` than an integer may have. -/
def HasLongNumber (cs : List Char) : Prop :=
  ∃ ds, ds <:+: cs ∧ (∀ c ∈ ds, c.isDigit = true) ∧ maxDigits < ds.length

theorem HasLongNumber.of_suffix (h : HasLongNumber rest) (hsuffix : rest <:+ cs) :
    HasLongNumber cs := by
  obtain ⟨ds, hds, hdigits⟩ := h
  exact ⟨ds, hds.trans hsuffix.isInfix, hdigits⟩

/-- What is read in `x` is taken off the front of `cs`, and only numbers that are there can be too
long. -/
structure Takes (cs : List Char) (x : Except Error (α × List Char)) : Prop where
  rest : ∀ a rest, x = .ok (a, rest) → rest <:+ cs
  long : x = .error .oversizedNumber → HasLongNumber cs

theorem Takes.of_suffix {x : Except Error (α × List Char)} (h : Takes rest x) (hsuffix : rest <:+ cs) :
    Takes cs x where
  rest a after hx := (h.rest a after hx).trans hsuffix
  long hx := (h.long hx).of_suffix hsuffix

theorem takes_ok (a : α) (h : rest <:+ cs) : Takes cs (.ok (a, rest)) where
  rest a' rest' hx := by
    cases hx
    exact h
  long hx := by cases hx

theorem takes_malformed : Takes cs (.error .malformed : Except Error (α × List Char)) where
  rest a rest hx := by cases hx
  long hx := by cases hx

theorem Takes.bind {x : Except Error (α × List Char)} {f : α × List Char → Except Error (β × List Char)}
    (hx : Takes cs x) (hf : ∀ a rest, Takes rest (f (a, rest))) : Takes cs (x >>= f) := by
  cases x with
  | error e =>
      constructor
      · intro b after h
        cases h
      · intro h
        cases h
        exact hx.long rfl
  | ok p => exact (hf p.1 p.2).of_suffix (hx.rest p.1 p.2 rfl)

theorem Takes.map {x : Except Error (α × List Char)} (h : Takes cs x) (f : α → β) :
    Takes cs (do
      let (a, rest) ← x
      return (f a, rest)) :=
  h.bind fun a rest => takes_ok (f a) (List.suffix_refl rest)

theorem Takes.skip {x : Except Error (α × List Char)} (h : Takes (skip cs) x) : Takes cs x :=
  h.of_suffix (List.dropWhile_suffix _)

theorem suffix_of_skip {c : Char} (h : skip cs = c :: rest) : rest <:+ cs := by
  have hskip : skip cs <:+ cs := List.dropWhile_suffix _
  rw [h] at hskip
  exact (List.suffix_cons c rest).trans hskip

/-! ### Strings: `takes_string` -/

theorem suffix_of_hexFour? {n : Nat} (h : hexFour? cs = some (n, rest)) : rest <:+ cs := by
  unfold hexFour? at h
  split at h
  · rename_i a b c d more
    obtain ⟨ns, -, hns⟩ := Option.map_eq_some_iff.mp h
    cases hns
    exact ⟨[a, b, c, d], rfl⟩
  · cases h

theorem suffix_of_escaped? {c : Char} (h : escaped? cs = some (c, rest)) : rest <:+ cs := by
  unfold escaped? at h
  split at h
  · split at h
    · cases h
    · rename_i hi after hhex
      have hafter := (suffix_of_hexFour? hhex).trans (List.suffix_cons 'u' _)
      split at h
      · rename_i more
        split at h
        · rename_i lo later hhex'
          split at h
          · obtain ⟨-, rfl⟩ := Prod.mk.inj (Option.some.inj h)
            have hmore : more <:+ '\\' :: 'u' :: more := ⟨['\\', 'u'], rfl⟩
            exact (suffix_of_hexFour? hhex').trans (hmore.trans hafter)
          · cases h
            exact hafter
        · cases h
          exact hafter
      · cases h
        exact hafter
  · rename_i d cs _
    have hrest : rest = cs := by grind
    exact hrest ▸ List.suffix_cons d cs
  · cases h

theorem takes_stringRest (fuel : Nat) (cs : List Char) : Takes cs (stringRest fuel cs) := by
  induction fuel generalizing cs with
  | zero => exact takes_malformed
  | succ fuel ih =>
      cases cs with
      | nil => exact takes_malformed
      | cons c cs =>
          rw [stringRest]
          split
          · exact takes_ok _ (List.suffix_cons c cs)
          · split
            · split
              · exact takes_malformed
              · rename_i d rest hescaped
                have hrest := (suffix_of_escaped? hescaped).trans (List.suffix_cons c cs)
                exact ((ih rest).map (d :: ·)).of_suffix hrest
            · split
              · exact takes_malformed
              · exact ((ih cs).map (c :: ·)).of_suffix (List.suffix_cons c cs)

theorem takes_string (cs : List Char) : Takes cs (string cs) :=
  (takes_stringRest _ cs).map String.ofList

/-! ### Numbers: `takes_number` -/

theorem digits_suffix (cs : List Char) : (digits cs).2 <:+ cs := List.dropWhile_suffix _

theorem fraction_suffix (cs : List Char) : (fraction cs).2 <:+ cs := by
  unfold fraction
  split
  · split
    · exact List.suffix_refl _
    · exact (digits_suffix _).trans (List.suffix_cons _ _)
  · exact List.suffix_refl _

theorem exponent_suffix (cs : List Char) : (exponent cs).2 <:+ cs := by
  unfold exponent
  split
  · rename_i e rest
    split
    · split
      rename_i sign after heq
      have hafter : after <:+ rest := by
        split at heq
        · cases heq
          exact List.suffix_cons _ _
        · cases heq
          exact List.suffix_cons _ _
        · cases heq
          exact List.suffix_refl _
      split
      · exact List.suffix_refl _
      · exact ((digits_suffix after).trans hafter).trans (List.suffix_cons e rest)
    · exact List.suffix_refl _
  · exact List.suffix_refl _

theorem isDigit_of_mem_digits {c : Char} (h : c ∈ (digits cs).1) : c.isDigit = true :=
  List.all_eq_true.mp List.all_takeWhile c h

theorem takes_number (cs : List Char) : Takes cs (number cs) := by
  unfold number
  split
  rename_i minus unsigned hminus
  have hunsigned : (minus = [] ∨ minus = ['-']) ∧ unsigned <:+ cs := by
    split at hminus
    · cases hminus
      exact ⟨.inr rfl, List.suffix_cons _ _⟩
    · cases hminus
      exact ⟨.inl rfl, List.suffix_refl _⟩
  split
  rename_i whole after hwhole
  have hdigits : (∀ c ∈ whole, c.isDigit = true) ∧ whole <+: unsigned ∧ after <:+ unsigned := by
    split at hwhole
    · cases hwhole
      exact ⟨List.all_eq_true.mp (by decide), ⟨_, rfl⟩, List.suffix_cons _ _⟩
    · cases hwhole
      exact ⟨fun c hc => isDigit_of_mem_digits hc, List.takeWhile_prefix _, digits_suffix _⟩
  have hrest : (exponent (fraction after).2).2 <:+ cs :=
    ((exponent_suffix _).trans (fraction_suffix _)).trans (hdigits.2.2.trans hunsigned.2)
  split
  · exact takes_malformed
  · rename_i hne
    dsimp only
    split
    · cases hint : int? (String.ofList (minus ++ whole)) with
      | some n => exact takes_ok _ hrest
      | none =>
          -- Only here a number is too long, and its digits stand at the front.
          refine ⟨fun a rest h => (by cases h), fun _ => ⟨whole, ?_, hdigits.1, ?_⟩⟩
          · exact hdigits.2.1.isInfix.trans hunsigned.2.isInfix
          · have hlong := int?_isSome_iff hunsigned.1 hdigits.1 (by simpa using hne)
            rw [hint] at hlong
            simpa using hlong
    · cases float? (String.ofList (minus ++ whole ++ (fraction after).1 ++
          (exponent (fraction after).2).1)) with
      | some x => exact takes_ok _ hrest
      | none => exact takes_malformed

/-! ### Values: `takesWithin` -/

theorem takes_word? {found : Value × List Char} (h : word? cs = some found) :
    Takes cs (.ok found : Except Error (Value × List Char)) := by
  obtain ⟨⟨w, v⟩, -, hw⟩ := List.exists_of_findSome?_eq_some h
  dsimp only at hw
  split at hw
  · cases hw
    exact takes_ok v (List.drop_suffix _ _)
  · cases hw

/-- With this `fuel`, values and rows of them are taken off the front. -/
structure TakesWithin (fuel : Nat) : Prop where
  value : ∀ cs, Takes cs (value fuel cs)
  elements : ∀ cs, Takes cs (elements fuel cs)
  members : ∀ cs, Takes cs (members fuel cs)

variable {fuel : Nat}

theorem TakesWithin.value_succ (h : TakesWithin fuel) (cs : List Char) :
    Takes cs (Json.value (fuel + 1) cs) := by
  cases cs with
  | nil => exact takes_malformed
  | cons c cs =>
      have htail : cs <:+ c :: cs := List.suffix_cons c cs
      rw [Json.value]
      split
      · exact ((takes_string cs).map Value.text).of_suffix htail
      · split
        · split
          · rename_i rest heq
            exact takes_ok _ ((suffix_of_skip heq).trans htail)
          · exact ((h.elements _).skip.map Value.list).of_suffix htail
        · split
          · split
            · rename_i rest heq
              exact takes_ok _ ((suffix_of_skip heq).trans htail)
            · exact ((h.members _).skip.map Value.ofFields).of_suffix htail
          · split
            · rename_i found hword
              exact takes_word? hword
            · exact takes_number _

theorem TakesWithin.elements_succ (h : TakesWithin fuel) (cs : List Char) :
    Takes cs (Json.elements (fuel + 1) cs) := by
  rw [Json.elements]
  refine (h.value cs).bind fun v rest => ?_
  dsimp only
  split
  · rename_i after heq
    exact takes_ok _ (suffix_of_skip heq)
  · rename_i after heq
    exact ((h.elements (skip after)).skip.map (v :: ·)).of_suffix (suffix_of_skip heq)
  · exact takes_malformed

/-- What follows a `key` is taken off the front, too. -/
theorem TakesWithin.field (h : TakesWithin fuel) (key : String) (rest : List Char) :
    Takes rest (match skip rest with
      | ':' :: rest => do
        let (v, rest) ← Json.value fuel (skip rest)
        match skip rest with
        | '\x7d' :: rest => return ([(key, v)], rest)
        | ',' :: rest =>
          let (fs, rest) ← Json.members fuel (skip rest)
          return ((key, v) :: fs, rest)
        | _ => .error .malformed
      | _ => .error .malformed) := by
  split
  · rename_i after heq
    refine ((h.value (skip after)).skip.bind fun v rest => ?_).of_suffix (suffix_of_skip heq)
    dsimp only
    split
    · rename_i after heq
      exact takes_ok _ (suffix_of_skip heq)
    · rename_i after heq
      exact ((h.members (skip after)).skip.map ((key, v) :: ·)).of_suffix (suffix_of_skip heq)
    · exact takes_malformed
  · exact takes_malformed

theorem TakesWithin.members_succ (h : TakesWithin fuel) (cs : List Char) :
    Takes cs (Json.members (fuel + 1) cs) := by
  unfold Json.members
  split
  · rename_i cs
    exact ((takes_string cs).bind h.field).of_suffix (List.suffix_cons _ cs)
  · exact takes_malformed

theorem takesWithin (fuel : Nat) : TakesWithin fuel := by
  induction fuel with
  | zero => exact ⟨fun _ => takes_malformed, fun _ => takes_malformed, fun _ => takes_malformed⟩
  | succ fuel ih => exact ⟨ih.value_succ, ih.elements_succ, ih.members_succ⟩

/-- **A document is refused for a number only if it `HasLongNumber`.** -/
theorem hasLongNumber_of_parse {source : String} (h : parse source = .error .oversizedNumber) :
    HasLongNumber source.toList := by
  have htakes := ((takesWithin (source.toList.length + 1)).value (skip source.toList)).skip
  unfold parse at h
  dsimp only at h
  cases hvalue : value (source.toList.length + 1) (skip source.toList) with
  | error e =>
      rw [hvalue] at h htakes
      cases h
      exact htakes.long rfl
  | ok found =>
      rw [hvalue] at h
      change (if (skip found.2).isEmpty = true then pure found.1 else .error .malformed) =
        Except.error Error.oversizedNumber at h
      split at h <;> cases h

variable {ds : List Char}

theorem digits_of_isDigit (hds : ∀ c ∈ ds, c.isDigit = true) : digits ds = (ds, []) := by
  induction ds with
  | nil => rfl
  | cons c ds ih =>
      rw [List.forall_mem_cons] at hds
      obtain ⟨htake, hdrop⟩ := Prod.mk.inj (ih hds.2)
      rw [digits, List.takeWhile_cons_of_pos hds.1, List.dropWhile_cons_of_pos hds.1, htake, hdrop]

theorem number_of_digits (hds : ∀ c ∈ ds, c.isDigit = true) (hzero : ds.head? ≠ some '0')
    (hlong : maxDigits < ds.length) : number ds = .error .oversizedNumber := by
  have hne : ds ≠ [] := by
    rintro rfl
    simp at hlong
  have hint : int? (String.ofList ds) = none := by
    rw [← Option.not_isSome_iff_eq_none, ← List.nil_append ds, int?_isSome_iff (.inl rfl) hds hne]
    omega
  unfold number
  split
  rename_i minus unsigned hminus
  split at hminus
  · exact absurd (hds '-' List.mem_cons_self) (by decide)
  · cases hminus
    split
    rename_i whole after hwhole
    split at hwhole
    · simp at hzero
    · rw [digits_of_isDigit hds] at hwhole
      cases hwhole
      simp [hne, fraction, exponent, hint]

/-- No word begins with a digit. -/
theorem word?_of_digit {c : Char} (hc : c.isDigit = true) (cs : List Char) : word? (c :: cs) = none := by
  have hwords : ∀ p ∈ words, ∃ d w, p.1.toList = d :: w ∧ d.isDigit = false := by
    simp [words]
  apply List.findSome?_eq_none_iff.mpr
  intro p hp
  obtain ⟨d, w, hw, hd⟩ := hwords p hp
  refine if_neg ?_
  rw [hw, List.isPrefixOf_cons_cons, Bool.and_eq_true, beq_iff_eq]
  exact fun h => ne_of_isDigit hc hd h.1.symm

theorem value_of_digit {c : Char} (hc : c.isDigit = true) (cs : List Char) :
    value (fuel + 1) (c :: cs) = number (c :: cs) := by
  rw [value, if_neg (ne_of_isDigit hc (by decide)), if_neg (ne_of_isDigit hc (by decide)),
    if_neg (ne_of_isDigit hc (by decide)), word?_of_digit hc]

/-- A document of nothing but more than `maxDigits` digits is refused. -/
theorem parse_of_digits (hds : ∀ c ∈ ds, c.isDigit = true) (hzero : ds.head? ≠ some '0')
    (hlong : maxDigits < ds.length) :
    parse (String.ofList ds) = .error .oversizedNumber := by
  cases ds with
  | nil => simp at hlong
  | cons c cs =>
      have hc := hds c List.mem_cons_self
      have hskip : skip (c :: cs) = c :: cs := by
        have hblank (d : Char) (hd : d.isDigit = false) : (decide (c = d)) = false :=
          decide_eq_false (ne_of_isDigit hc hd)
        refine List.dropWhile_cons_of_neg ?_
        rw [hblank ' ' (by decide), hblank '\t' (by decide), hblank '\n' (by decide),
          hblank '\r' (by decide)]
        decide
      unfold parse
      dsimp only
      rw [String.toList_ofList, hskip, value_of_digit hc, number_of_digits hds hzero hlong]
      rfl

end Json

end PageReach
