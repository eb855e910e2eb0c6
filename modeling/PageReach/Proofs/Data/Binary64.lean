import Mathlib.Algebra.Order.Field.Power
import Mathlib.Data.Rat.Floor
import Mathlib.Tactic.FieldSimp
import Mathlib.Tactic.Linarith
import Mathlib.Tactic.Positivity
import Mathlib.Tactic.Ring
import PageReach.Data.Binary64

/-!
# Rounding to the nearest number

Floating-point numbers stand for rational numbers (`value`). A quotient is rounded by taking the
grid that the numbers near it lie on (`gridExponent`), dividing by the width of the grid, and
rounding to an integer (`gridPoint`).

* **Integers** (`isRounding_roundQuotient`): `roundQuotient` takes the nearest integer, of two the
  even one.
* **Grids** (`nearest_on_grid`): numbers that are not on the grid are all smaller than the quotient,
  and the grid has a point between. So no number is nearer than the one that comes out.
* **Quotients and products** (`roundsTo_ofQuotient`, `roundsTo_mul`): both are rounded once, as
  `RoundsTo` says.
* **Integer parts** (`RoundsTo.floor_eq`): rounding does not leave an interval between two values.
-/

namespace PageReach.Binary64

variable {num den m : Nat} {e : Int} {q y : ℚ} {x : Binary64}

/-! ## The `value` of a number -/

/-- The rational number that a finite number stands for: `m * 2 ^ e`, with its sign. -/
def value : Binary64 → ℚ
  | .finite negative m e => (if negative then -1 else 1) * (m * 2 ^ e)
  | _ => 0

/-- The significand `m` of a finite number. -/
def significand : Binary64 → Nat
  | .finite _ m _ => m
  | _ => 0

/-- `y` is the `value` of some floating-point number. -/
def IsValue (y : ℚ) : Prop :=
  ∃ (m : Nat) (e : Int), m < 2 ^ 53 ∧ -1074 ≤ e ∧ e ≤ 971 ∧ |y| = m * 2 ^ e

/-- Finite numbers are written with all digits that they can have, which is 53 unless the exponent
is `-1074`. -/
def IsNormal : Binary64 → Prop
  | .finite _ m e => m < 2 ^ 53 ∧ -1074 ≤ e ∧ e ≤ 971 ∧ (2 ^ 52 ≤ m ∨ e = -1074)
  | _ => False

/-- The number `x` is what `q` is rounded to: no value is nearer to `q`, and if another one is equally
near, then `x` is even. -/
structure RoundsTo (q : ℚ) (x : Binary64) : Prop where
  normal : x.IsNormal
  nearest : ∀ y, IsValue y → |x.value - q| ≤ |y - q|
  even : ∀ y, IsValue y → y ≠ x.value → |y - q| = |x.value - q| → x.significand % 2 = 0

@[simp] theorem value_finite_false (m : Nat) (e : Int) : (finite false m e).value = m * 2 ^ e := by
  simp [value]

/-! ## Integers: `roundQuotient` -/

/-- The integer `m` is nearest to `q`, and even if it is not alone in that. -/
def IsRounding (q : ℚ) (m : Nat) : Prop := |(m : ℚ) - q| ≤ 1 / 2 ∧ (|(m : ℚ) - q| = 1 / 2 → m % 2 = 0)

theorem isRounding_roundQuotient (num : Nat) (hden : 0 < den) :
    IsRounding ((num : ℚ) / den) (roundQuotient num den) := by
  have hpos : (0 : ℚ) < den := by exact_mod_cast hden
  -- the quotient is its integer part and a rest
  have hquotient : (num : ℚ) / den = (num / den : Nat) + (num % den : Nat) / den := by
    rw [div_eq_iff hpos.ne', add_mul, div_mul_cancel₀ _ hpos.ne']
    exact_mod_cast (Nat.div_add_mod' num den).symm
  have hrest : (0 : ℚ) ≤ (num % den : Nat) / den := by positivity
  have hlt : ((num % den : Nat) : ℚ) / den < 1 := by
    rw [div_lt_one hpos]
    exact_mod_cast Nat.mod_lt num hden
  rw [IsRounding, hquotient, roundQuotient]
  generalize num / den = front at *
  generalize num % den = rest at *
  split
  · -- less than a half is dropped
    rename_i hsmall
    have hsmall : (rest : ℚ) / den < 1 / 2 := by
      rw [div_lt_iff₀ hpos]
      have : ((2 * rest : Nat) : ℚ) < den := by exact_mod_cast hsmall
      push_cast at this
      linarith
    rw [sub_add_cancel_left, abs_neg, abs_of_nonneg hrest]
    exact ⟨hsmall.le, fun h => absurd h hsmall.ne⟩
  · split
    · -- more than a half is filled up
      rename_i hlarge
      have hlarge : 1 / 2 < (rest : ℚ) / den := by
        rw [lt_div_iff₀ hpos]
        have : (den : ℚ) < (2 * rest : Nat) := by exact_mod_cast hlarge
        push_cast at this
        linarith
      have hdiff : ((front + 1 : Nat) : ℚ) - (front + rest / den) = 1 - rest / den := by
        push_cast
        ring
      rw [hdiff, abs_of_pos (by linarith)]
      exact ⟨by linarith, fun h => by linarith⟩
    · -- a half goes to the even neighbour
      rename_i hsmall hlarge
      have hhalf : (rest : ℚ) / den = 1 / 2 := by
        rw [div_eq_div_iff hpos.ne' two_ne_zero, one_mul]
        exact_mod_cast (by omega : rest * 2 = den)
      have heven : (front + front % 2) % 2 = 0 := by omega
      refine ⟨?_, fun _ => heven⟩
      rw [hhalf]
      rcases Nat.mod_two_eq_zero_or_one front with h | h <;> rw [h] <;> push_cast <;>
        rw [abs_le] <;> constructor <;> linarith

theorem IsRounding.nearest (h : IsRounding q m) {i : Int} (hi : i ≠ m) :
    |(m : ℚ) - q| ≤ |(i : ℚ) - q| ∧ (|(i : ℚ) - q| = |(m : ℚ) - q| → m % 2 = 0) := by
  -- another integer is at least one away from `m`
  have hone : (1 : ℚ) ≤ |(i : ℚ) - m| := by
    have : (1 : Int) ≤ |i - m| := Int.one_le_abs (sub_ne_zero.mpr hi)
    exact_mod_cast this
  have hsum : |(i : ℚ) - m| ≤ |(i : ℚ) - q| + |(m : ℚ) - q| := by
    rw [abs_sub_comm (m : ℚ) q]
    exact abs_sub_le _ _ _
  obtain ⟨hle, heven⟩ := h
  refine ⟨by linarith, fun heq => heven ?_⟩
  linarith

/-! ## Powers of two: `binaryExponent` -/

theorem scaleDown_quotient (num : Nat) (hden : 0 < den) (e : Int) :
    0 < (scaleDown num den e).2 ∧
      ((scaleDown num den e).1 : ℚ) / (scaleDown num den e).2 = num / den / 2 ^ e := by
  unfold scaleDown
  split
  · rename_i he
    obtain ⟨k, rfl⟩ := Int.eq_ofNat_of_zero_le he
    simp [Nat.pow_eq, hden, div_div]
  · rename_i he
    obtain ⟨k, rfl⟩ : ∃ k : Nat, e = -k := ⟨(-e).toNat, by omega⟩
    simp [Nat.pow_eq, hden, mul_div_right_comm]

/-- The exponent of the largest power of two up to the quotient `num / den`. -/
theorem binaryExponent_bounds (hnum : num ≠ 0) (hden : 0 < den) :
    (2 : ℚ) ^ binaryExponent num den ≤ num / den ∧
      (num : ℚ) / den < 2 ^ (binaryExponent num den + 1) := by
  have hpos : (0 : ℚ) < den := by exact_mod_cast hden
  have hnum₁ : (2 : ℚ) ^ (num.log2 : Int) ≤ num := by exact_mod_cast Nat.log2_self_le hnum
  have hnum₂ : (num : ℚ) < 2 ^ ((num.log2 : Int) + 1) := by exact_mod_cast Nat.lt_log2_self
  have hden₁ : (2 : ℚ) ^ (den.log2 : Int) ≤ den := by exact_mod_cast Nat.log2_self_le hden.ne'
  have hden₂ : (den : ℚ) < 2 ^ ((den.log2 : Int) + 1) := by exact_mod_cast Nat.lt_log2_self
  -- the logarithms of numerator and denominator tell it up to one
  have hlow : (2 : ℚ) ^ ((num.log2 : Int) - den.log2 - 1) ≤ num / den := by
    rw [le_div_iff₀ hpos]
    calc (2 : ℚ) ^ ((num.log2 : Int) - den.log2 - 1) * den
        ≤ 2 ^ ((num.log2 : Int) - den.log2 - 1) * 2 ^ ((den.log2 : Int) + 1) := by gcongr
      _ = 2 ^ (num.log2 : Int) := by
          rw [← zpow_add₀ two_ne_zero]
          congr 1
          ring
      _ ≤ num := hnum₁
  have hhigh : (num : ℚ) / den < 2 ^ ((num.log2 : Int) - den.log2 + 1) := by
    rw [div_lt_iff₀ hpos]
    calc (num : ℚ) < 2 ^ ((num.log2 : Int) + 1) := hnum₂
      _ = 2 ^ ((num.log2 : Int) - den.log2 + 1) * 2 ^ (den.log2 : Int) := by
          rw [← zpow_add₀ two_ne_zero]
          congr 1
          ring
      _ ≤ 2 ^ ((num.log2 : Int) - den.log2 + 1) * den := by gcongr
  unfold binaryExponent
  generalize (num.log2 : Int) - den.log2 = guess at *
  obtain ⟨hpos', hscaled⟩ := scaleDown_quotient num hden guess
  have hguess : (scaleDown num den guess).1 < (scaleDown num den guess).2 ↔
      (num : ℚ) / den < 2 ^ guess := by
    have hcast : (0 : ℚ) < (scaleDown num den guess).2 := by exact_mod_cast hpos'
    rw [← div_lt_one (by positivity : (0 : ℚ) < 2 ^ guess), ← hscaled, div_lt_one hcast, Nat.cast_lt]
  dsimp only
  split
  · rename_i hlt
    exact ⟨hlow, by simpa using hguess.mp hlt⟩
  · rename_i hge
    exact ⟨not_lt.mp (mt hguess.mpr hge), hhigh⟩

/-! ## Grids -/

theorem abs_mul_zpow_sub (z q : ℚ) (e : Int) : |z * 2 ^ e - q| = |z - q / 2 ^ e| * 2 ^ e := by
  have hpos : (0 : ℚ) < 2 ^ e := by positivity
  rw [← abs_of_pos hpos, ← abs_mul, abs_of_pos hpos, sub_mul, div_mul_cancel₀ _ hpos.ne']

/-- A value with an exponent `f` that is not smaller than the exponent `e` of the grid lies on the
grid. -/
theorem exists_int_of_le {f : Int} (h : |y| = m * 2 ^ f) (hf : e ≤ f) : ∃ i : Int, y = i * 2 ^ e := by
  obtain ⟨k, rfl⟩ : ∃ k : Nat, f = e + k := ⟨(f - e).toNat, by omega⟩
  have habs : |y| = ((m * 2 ^ k : Nat) : Int) * (2 : ℚ) ^ e := by
    rw [h, zpow_add₀ two_ne_zero, zpow_natCast]
    push_cast
    ring
  rcases abs_choice y with hy | hy
  · exact ⟨_, hy ▸ habs⟩
  · exact ⟨-((m * 2 ^ k : Nat) : Int), by rw [Int.cast_neg, neg_mul, ← habs, hy, neg_neg]⟩

/-- A value with a smaller exponent lies below `2 ^ 52 * 2 ^ e`, where the part of the grid begins
that has all digits. -/
theorem abs_lt_of_lt {f : Int} (h : |y| = m * 2 ^ f) (hm : m < 2 ^ 53) (hf : f < e) :
    |y| < 2 ^ 52 * 2 ^ e := by
  have hm : (m : ℚ) < 2 ^ 53 := by exact_mod_cast hm
  calc |y| = m * 2 ^ f := h
    _ < 2 ^ 53 * 2 ^ f := by gcongr
    _ ≤ 2 ^ 53 * 2 ^ (e - 1) := by
        gcongr
        · norm_num
        · omega
    _ = 2 ^ 52 * 2 ^ e := by
        rw [zpow_sub_one₀ two_ne_zero]
        ring

/-- **No value is nearer than the point `m * 2 ^ e` that comes from rounding on the grid.** Another
point of the grid is not, by `IsRounding.nearest`. What is not on the grid lies below
`2 ^ 52 * 2 ^ e` by `abs_lt_of_lt`, and this is a point of the grid between it and `q`. -/
theorem nearest_on_grid (hm : IsRounding (q / 2 ^ e) m) (hlow : e = -1074 ∨ 2 ^ 52 ≤ q / 2 ^ e)
    (hy : IsValue y) (hne : y ≠ m * 2 ^ e) :
    |m * 2 ^ e - q| ≤ |y - q| ∧ (|y - q| = |m * 2 ^ e - q| → m % 2 = 0) := by
  have hpos : (0 : ℚ) < 2 ^ e := by positivity
  obtain ⟨m', f, hm', hf, -, habs⟩ := hy
  rcases le_or_gt e f with hef | hfe
  · obtain ⟨i, rfl⟩ := exists_int_of_le habs hef
    have hi : i ≠ m := by
      rintro rfl
      exact hne (by norm_cast)
    rw [abs_mul_zpow_sub, abs_mul_zpow_sub]
    obtain ⟨hle, heven⟩ := hm.nearest hi
    exact ⟨by gcongr, fun heq => heven (mul_right_cancel₀ hpos.ne' heq)⟩
  · -- the first point with all digits lies between the value and `q`
    have hfull : 2 ^ 52 ≤ q / 2 ^ e := hlow.resolve_left (by omega)
    have hbelow : y < 2 ^ 52 * 2 ^ e := lt_of_abs_lt (abs_lt_of_lt habs hm' hfe)
    have hbetween : |(m : ℚ) - q / 2 ^ e| ≤ q / 2 ^ e - 2 ^ 52 := by
      have hpoint : |((2 ^ 52 : Nat) : ℚ) - q / 2 ^ e| = q / 2 ^ e - 2 ^ 52 := by
        rw [abs_sub_comm, abs_of_nonneg] <;> push_cast <;> linarith
      by_cases h : ((2 ^ 52 : Nat) : Int) = m
      · rw [← hpoint, Nat.cast_inj.mp h]
      · rw [← hpoint]
        exact (hm.nearest h).1
    have hstrict : |m * 2 ^ e - q| < |y - q| := by
      have hq : 2 ^ 52 * 2 ^ e ≤ q := (le_div_iff₀ hpos).mp hfull
      rw [abs_mul_zpow_sub, abs_sub_comm y q, abs_of_pos (sub_pos.mpr (hbelow.trans_le hq))]
      calc |(m : ℚ) - q / 2 ^ e| * 2 ^ e ≤ (q / 2 ^ e - 2 ^ 52) * 2 ^ e := by gcongr
        _ = q - 2 ^ 52 * 2 ^ e := by rw [sub_mul, div_mul_cancel₀ _ hpos.ne']
        _ < q - y := by linarith
    exact ⟨hstrict.le, fun heq => absurd heq hstrict.ne'⟩

/-! ## Quotients: `ofQuotient` -/

/-- The exponent of the grid around the quotient `num / den`. -/
def gridExponent (num den : Nat) : Int := max (binaryExponent num den - 52) (-1074)

/-- The point of the grid that `num / den` is rounded to, divided by the width of the grid. -/
def gridPoint (num den : Nat) : Nat :=
  roundQuotient (scaleDown num den (gridExponent num den)).1 (scaleDown num den (gridExponent num den)).2

theorem ofQuotient_eq (negative : Bool) (hnum : num ≠ 0) :
    ofQuotient negative num den =
      if gridPoint num den = 2 ^ 53 then
        if 971 < gridExponent num den + 1 then .infinite negative
        else .finite negative (2 ^ 52) (gridExponent num den + 1)
      else if 971 < gridExponent num den then .infinite negative
      else .finite negative (gridPoint num den) (gridExponent num den) := by
  rw [ofQuotient, if_neg hnum]
  simp only [gridPoint, gridExponent, Nat.pow_eq, Nat.reducePow]
  split
  · simp only [*, if_true]
    rfl
  · simp only [*, if_false]
    rfl

theorem isRounding_gridPoint (num : Nat) (hden : 0 < den) :
    IsRounding ((num : ℚ) / den / 2 ^ gridExponent num den) (gridPoint num den) := by
  obtain ⟨hpos, hscaled⟩ := scaleDown_quotient num hden (gridExponent num den)
  rw [← hscaled]
  exact isRounding_roundQuotient _ hpos

/-- Divided by the width of its grid, a quotient has all digits before the point, or the grid is the
finest one, with the exponent `-1074`. -/
theorem le_scaled (hnum : num ≠ 0) (hden : 0 < den) :
    gridExponent num den = -1074 ∨ 2 ^ 52 ≤ (num : ℚ) / den / 2 ^ gridExponent num den := by
  rw [gridExponent]
  rcases le_or_gt (binaryExponent num den - 52) (-1074) with h | h
  · exact .inl (max_eq_right h)
  · right
    rw [max_eq_left h.le, le_div_iff₀ (by positivity), ← zpow_ofNat, ← zpow_add₀ two_ne_zero]
    simpa using (binaryExponent_bounds hnum hden).1

theorem scaled_lt (hnum : num ≠ 0) (hden : 0 < den) :
    (num : ℚ) / den / 2 ^ gridExponent num den < 2 ^ 53 := by
  rw [div_lt_iff₀ (by positivity)]
  calc (num : ℚ) / den < 2 ^ (binaryExponent num den + 1) := (binaryExponent_bounds hnum hden).2
    _ ≤ 2 ^ (53 + gridExponent num den) := by
        refine zpow_le_zpow_right₀ one_le_two ?_
        unfold gridExponent
        omega
    _ = 2 ^ 53 * 2 ^ gridExponent num den := by rw [zpow_add₀ two_ne_zero, zpow_ofNat]

theorem gridPoint_le (hnum : num ≠ 0) (hden : 0 < den) : gridPoint num den ≤ 2 ^ 53 := by
  have hclose := (abs_le.mp (isRounding_gridPoint num hden).1).2
  have hlt := scaled_lt hnum hden
  have : (gridPoint num den : ℚ) < (2 ^ 53 + 1 : Nat) := by
    push_cast
    linarith
  have : gridPoint num den < 2 ^ 53 + 1 := by exact_mod_cast this
  omega

theorem le_gridPoint (hnum : num ≠ 0) (hden : 0 < den) :
    2 ^ 52 ≤ gridPoint num den ∨ gridExponent num den = -1074 := by
  refine (le_scaled hnum hden).symm.imp_left fun hfull => ?_
  have hclose := (abs_le.mp (isRounding_gridPoint num hden).1).1
  have : ((2 ^ 52 : Nat) : ℚ) < (gridPoint num den + 1 : Nat) := by
    push_cast
    linarith
  have : 2 ^ 52 < gridPoint num den + 1 := by exact_mod_cast this
  omega

theorem le_gridExponent (num den : Nat) : -1074 ≤ gridExponent num den := by
  unfold gridExponent
  omega

theorem gridExponent_lt (hnum : num ≠ 0) (hden : 0 < den) (hq : (num : ℚ) / den < 2 ^ (1023 : Int)) :
    gridExponent num den < 971 := by
  have : (2 : ℚ) ^ binaryExponent num den < 2 ^ (1023 : Int) :=
    (binaryExponent_bounds hnum hden).1.trans_lt hq
  rw [zpow_lt_zpow_iff_right₀ one_lt_two] at this
  unfold gridExponent
  omega

theorem lt_of_lt_pow (h : q < 2 ^ 53) : q < 2 ^ (1023 : Int) := by
  rw [← zpow_ofNat] at h
  exact h.trans (zpow_lt_zpow_right₀ one_lt_two (by norm_num))

/-- A number that stands for the rounded point of the grid is what `q` is rounded to. -/
theorem roundsTo_of_grid (hm : IsRounding (q / 2 ^ e) m) (hlow : e = -1074 ∨ 2 ^ 52 ≤ q / 2 ^ e)
    (hnormal : x.IsNormal) (hvalue : x.value = m * 2 ^ e)
    (heven : m % 2 = 0 → x.significand % 2 = 0) : RoundsTo q x where
  normal := hnormal
  nearest y hy := by
    rw [hvalue]
    by_cases hne : y = m * 2 ^ e
    · rw [hne]
    · exact (nearest_on_grid hm hlow hy hne).1
  even y hy hne heq := by
    rw [hvalue] at hne heq
    exact heven ((nearest_on_grid hm hlow hy hne).2 heq)

/-- **A quotient is rounded to the nearest number by `ofQuotient`**, if it is not beyond all of
them. -/
theorem roundsTo_ofQuotient (num : Nat) (hden : 0 < den) (hq : (num : ℚ) / den < 2 ^ (1023 : Int)) :
    ∃ m e, ofQuotient false num den = .finite false m e ∧ RoundsTo (num / den) (.finite false m e) := by
  by_cases hnum : num = 0
  · subst hnum
    refine ⟨0, -1074, by rw [ofQuotient, if_pos rfl], ⟨?_, fun y _ => ?_, fun _ _ _ _ => rfl⟩⟩
    · exact ⟨by norm_num, le_rfl, by norm_num, .inr rfl⟩
    · simp
  · have hround := isRounding_gridPoint num hden
    have hlow := le_scaled hnum hden
    have hfine := le_gridExponent num den
    have hcoarse := gridExponent_lt hnum hden hq
    rw [ofQuotient_eq false hnum]
    by_cases hcarry : gridPoint num den = 2 ^ 53
    · -- rounding up gave one more digit than there can be, and the last one is zero
      rw [if_pos hcarry, if_neg (by omega)]
      refine ⟨_, _, rfl, roundsTo_of_grid hround hlow ?_ ?_ fun _ => ?_⟩
      · exact ⟨by norm_num, by omega, by omega, .inl le_rfl⟩
      · rw [value_finite_false, hcarry, zpow_add_one₀ two_ne_zero]
        push_cast
        ring
      · rw [significand]
        norm_num
    · rw [if_neg hcarry, if_neg (by omega)]
      refine ⟨_, _, rfl, roundsTo_of_grid hround hlow ?_ (value_finite_false _ _) id⟩
      exact ⟨lt_of_le_of_ne (gridPoint_le hnum hden) hcarry, hfine, by omega, le_gridPoint hnum hden⟩

/-! ## Arithmetic: `mul` and `floor?` -/

/-- A product is rounded once by `mul`. -/
theorem roundsTo_mul (m n : Nat) (e f : Int) (h : (m * 2 ^ e * (n * 2 ^ f) : ℚ) < 2 ^ (1023 : Int)) :
    RoundsTo (m * 2 ^ e * (n * 2 ^ f)) ((finite false m e).mul (.finite false n f)) := by
  obtain ⟨hpos, hscaled⟩ := scaleDown_quotient (m * n) one_pos (-(e + f))
  have hproduct : ((scaleDown (m * n) 1 (-(e + f))).1 : ℚ) / (scaleDown (m * n) 1 (-(e + f))).2 =
      m * 2 ^ e * (n * 2 ^ f) := by
    rw [hscaled, zpow_neg, div_inv_eq_mul, zpow_add₀ two_ne_zero]
    push_cast
    ring
  obtain ⟨m', e', hresult, hround⟩ := roundsTo_ofQuotient _ hpos (hproduct ▸ h)
  rw [hproduct, ← hresult] at hround
  exact hround

theorem floor?_finite (negative : Bool) (m : Nat) (e : Int) :
    (finite negative m e).floor? = some ⌊(finite negative m e).value⌋ := by
  obtain ⟨hpos, hscaled⟩ := scaleDown_quotient m one_pos (-e)
  have hvalue : (finite negative m e).value =
      ((if negative then -(scaleDown m 1 (-e)).1 else (scaleDown m 1 (-e)).1 : Int) : ℚ) /
        (scaleDown m 1 (-e)).2 := by
    have hscaled : ((scaleDown m 1 (-e)).1 : ℚ) / (scaleDown m 1 (-e)).2 = m * 2 ^ e := by
      rw [hscaled]
      simp
    cases negative
    · simp [value, ← hscaled]
    · simp [value, ← hscaled, neg_div]
  rw [hvalue, Rat.floor_intCast_div_natCast]
  exact congrArg some (Int.fdiv_eq_ediv_of_nonneg _ (Int.natCast_nonneg _))

theorem IsNormal.floor? (h : x.IsNormal) : x.floor? = some ⌊x.value⌋ := by
  cases x with
  | finite negative m e => exact floor?_finite negative m e
  | infinite negative => exact h.elim
  | nan => exact h.elim

/-- An integer `n` of at most 53 digits is a floating-point number. -/
theorem ofInt?_natCast (n : Nat) (hn : n < 2 ^ 53) :
    ∃ m e, ofInt? n = some (.finite false m e) ∧ (m * 2 ^ e : ℚ) = n := by
  have hlt : ((n : Nat) : ℚ) / (1 : Nat) < 2 ^ 53 := by
    rw [Nat.cast_one, div_one]
    exact_mod_cast hn
  obtain ⟨m, e, hm, hround⟩ := roundsTo_ofQuotient n one_pos (lt_of_lt_pow hlt)
  refine ⟨m, e, ?_, ?_⟩
  · have hnonneg : decide ((n : Int) < 0) = false := decide_eq_false (by omega)
    rw [ofInt?, hnonneg, Int.natAbs_natCast, hm]
  · have hself := hround.nearest n ⟨n, 0, hn, by norm_num, by norm_num, by simp⟩
    rw [value_finite_false, Nat.cast_one, div_one, sub_self, abs_zero] at hself
    exact sub_eq_zero.mp (abs_nonpos_iff.mp hself)

/-! ## Integer parts -/

/-- Rounding does not leave an interval between two values: `k` and `k + 31 / 32` both are
values. -/
theorem RoundsTo.floor_eq (h : RoundsTo q x) {k : Nat} (hk : k < 2 ^ 48) (hlow : (k : ℚ) ≤ q)
    (hhigh : q ≤ k + 31 / 32) : ⌊x.value⌋ = k := by
  have hk' : IsValue (k : ℚ) := ⟨k, 0, by omega, by norm_num, by norm_num, by simp⟩
  have hend : IsValue ((k : ℚ) + 31 / 32) := by
    refine ⟨32 * k + 31, -5, by omega, by norm_num, by norm_num, ?_⟩
    rw [abs_of_nonneg (by positivity)]
    push_cast
    ring
  have habove := h.nearest _ hk'
  have hbelow := h.nearest _ hend
  rw [abs_sub_comm (k : ℚ), abs_of_nonneg (sub_nonneg.mpr hlow), abs_le] at habove
  rw [abs_of_nonneg (sub_nonneg.mpr hhigh), abs_le] at hbelow
  rw [Int.floor_eq_iff]
  constructor <;> push_cast <;> linarith

end PageReach.Binary64
