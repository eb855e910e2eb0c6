import PageReach.Proofs.Data.Binary64
import PageReach.Proofs.Engine.Order

/-!
# The thresholds are exact

Nine tenths and a twentieth are no floating-point numbers: the constants are a little larger, and a
product with one of them is rounded again. The error is less than the distance from the exact
product to the next integer above it, as long as there are less than `2 ^ 48` files and pages.

* **Constants** (`roundsTo_decile`, `roundsTo_fraction`): both are rounded to the nearest number.
* **Shares** (`floor_of_ratio`, `share_of_ratio`): the integer part is that of the exact product.
* **Thresholds** (`common_eq`, `few_eq`, `thresholds_exact`): so they can be told without
  floating-point numbers.
-/

namespace PageReach.Threshold

open Binary64

variable {counts s : List Int} {n p d : Nat} {r : ℚ} {x : Binary64}

/-! ## Constants: `decile` and `fraction` -/

theorem decile_eq : decile = .finite false 8106479329266893 (-53) := by
  decide

theorem fraction_eq : fraction = .finite false 7205759403792794 (-57) := by
  decide

theorem roundsTo_decile : RoundsTo (9 / 10) decile := by
  obtain ⟨m, e, heq, h⟩ := roundsTo_ofQuotient 9 (by norm_num : 0 < 10) (lt_of_lt_pow (by norm_num))
  rw [show decile = ofQuotient false 9 10 by decide, heq]
  exact_mod_cast h

theorem roundsTo_fraction : RoundsTo (1 / 20) fraction := by
  obtain ⟨m, e, heq, h⟩ := roundsTo_ofQuotient 5 (by norm_num : 0 < 100) (lt_of_lt_pow (by norm_num))
  rw [show fraction = ofQuotient false 5 100 by decide, heq]
  norm_num at h ⊢
  exact h

/-! ## Shares: `share` -/

/-- A `share` is the integer part of the rounded product. -/
theorem share_finite (hn : n < 2 ^ 48) (m : Nat) (e : Int) (hpart : (m * 2 ^ e : ℚ) ≤ 1) :
    ∃ x, RoundsTo (n * (finite false m e).value) x ∧ share n (.finite false m e) = .ok ⌊x.value⌋ := by
  obtain ⟨m', e', hint, hvalue⟩ := ofInt?_natCast n (by omega)
  have hlt : (m' * 2 ^ e' * (m * 2 ^ e) : ℚ) < 2 ^ 53 := by
    have hn : (n : ℚ) < 2 ^ 48 := by exact_mod_cast hn
    calc (m' * 2 ^ e' * (m * 2 ^ e) : ℚ) = n * (m * 2 ^ e) := by rw [hvalue]
      _ ≤ n * 1 := by gcongr
      _ < 2 ^ 53 := by linarith
  have hround := roundsTo_mul m' m e' e (lt_of_lt_pow hlt)
  refine ⟨_, hvalue ▸ value_finite_false m e ▸ hround, ?_⟩
  rw [share, hint, Option.bind_some, hround.normal.floor?]

/-- A number `r` that is a little larger than the ratio `p / d` does as well as the ratio. -/
theorem floor_of_ratio (hd : 0 < d) (hd' : d ≤ 20) (hp : p ≤ d) (hlow : (p / d : ℚ) ≤ r)
    (hhigh : r ≤ p / d + 1 / 2 ^ 54) (hn : n < 2 ^ 48) (hx : RoundsTo (n * r) x) :
    ⌊x.value⌋ = (p * n / d : Nat) := by
  have hpos : (0 : ℚ) < d := by exact_mod_cast hd
  have hk : p * n / d ≤ n := Nat.div_le_of_le_mul (Nat.mul_le_mul_right n hp)
  have hfloor : ((p * n / d : Nat) : ℚ) ≤ n * (p / d) := by
    rw [mul_div_assoc', le_div_iff₀ hpos, mul_comm (n : ℚ)]
    exact_mod_cast Nat.div_mul_le_self (p * n) d
  -- the exact product is at least a twentieth away from the next integer
  have hnext : (n * (p / d) : ℚ) ≤ (p * n / d : Nat) + 19 / 20 := by
    have hmod : ((p * n : Nat) : ℚ) + 1 ≤ ((p * n / d : Nat) + 1) * d := by
      exact_mod_cast Nat.lt_mul_of_div_lt (Nat.lt_succ_self _) hd
    have hd' : (d : ℚ) ≤ 20 := by exact_mod_cast hd'
    rw [mul_div_assoc', div_le_iff₀ hpos]
    push_cast at hmod ⊢
    linarith
  have hn : (n : ℚ) < 2 ^ 48 := by exact_mod_cast hn
  refine hx.floor_eq (by omega) ?_ ?_
  · calc ((p * n / d : Nat) : ℚ) ≤ n * (p / d) := hfloor
      _ ≤ n * r := by gcongr
  · calc (n * r : ℚ) ≤ n * (p / d + 1 / 2 ^ 54) := by gcongr
      _ = n * (p / d) + n / 2 ^ 54 := by ring
      _ ≤ (p * n / d : Nat) + 31 / 32 := by linarith

theorem share_of_ratio (hn : n < 2 ^ 48) {m : Nat} {e : Int} (hd : 0 < d) (hd' : d ≤ 20) (hp : p ≤ d)
    (hlow : (p / d : ℚ) ≤ m * 2 ^ e) (hhigh : (m * 2 ^ e : ℚ) ≤ p / d + 1 / 2 ^ 54)
    (hone : (m * 2 ^ e : ℚ) ≤ 1) :
    ∃ x, RoundsTo (n * (finite false m e).value) x ∧ share n (.finite false m e) = .ok ⌊x.value⌋ ∧
      ⌊x.value⌋ = (p * n / d : Nat) := by
  obtain ⟨x, hround, hshare⟩ := share_finite hn m e hone
  refine ⟨x, hround, hshare, floor_of_ratio hd hd' hp hlow hhigh hn ?_⟩
  rwa [value_finite_false] at hround

theorem share_decile (hn : n < 2 ^ 48) :
    ∃ x, RoundsTo (n * decile.value) x ∧ share n decile = .ok ⌊x.value⌋ ∧
      ⌊x.value⌋ = (9 * n / 10 : Nat) := by
  rw [decile_eq]
  apply share_of_ratio hn <;> norm_num

theorem share_fraction (hn : n < 2 ^ 48) :
    ∃ x, RoundsTo (n * fraction.value) x ∧ share n fraction = .ok ⌊x.value⌋ ∧
      ⌊x.value⌋ = (1 * n / 20 : Nat) := by
  rw [fraction_eq]
  apply share_of_ratio hn <;> norm_num

/-! ## Counts in order -/

/-- There is one way to sort: `s` is what `mergeSort` gives. -/
theorem mergeSort_eq_of_pairwise (hperm : s.Perm counts) (hsorted : s.Pairwise (· ≤ ·)) :
    counts.mergeSort (· ≤ ·) = s := by
  rw [← mergeSort_perm hperm, List.mergeSort_of_pairwise]
  simpa using hsorted

/-- Only what stands behind the entry at `i` of a sorted list can be above it. -/
theorem countP_getD_lt (hsorted : s.Pairwise (· ≤ ·)) {i : Nat} (hi : i < s.length) :
    s.countP (s.getD i 0 < ·) ≤ s.length - (i + 1) := by
  have hfront : (s.take (i + 1)).countP (s.getD i 0 < ·) = 0 := by
    rw [List.countP_eq_zero]
    intro a ha
    obtain ⟨j, hj, rfl⟩ := List.mem_take_iff_getElem.mp ha
    have hji : j ≤ i := by omega
    rw [List.getD_eq_getElem?_getD, List.getElem?_eq_getElem hi, Option.getD_some,
      decide_eq_true_eq, not_lt]
    rcases hji.eq_or_lt with rfl | hlt
    · exact le_rfl
    · exact List.pairwise_iff_getElem.mp hsorted j i (by omega) hi hlt
  calc s.countP (s.getD i 0 < ·)
      = (s.take (i + 1) ++ s.drop (i + 1)).countP (s.getD i 0 < ·) := by rw [List.take_append_drop]
    _ = (s.drop (i + 1)).countP (s.getD i 0 < ·) := by rw [List.countP_append, hfront, Nat.zero_add]
    _ ≤ (s.drop (i + 1)).length := List.countP_le_length
    _ = s.length - (i + 1) := List.length_drop

/-! ## `thresholds` -/

theorem ninthDecile_eq (h : counts.length < 2 ^ 48) :
    ninthDecile counts = .ok ((counts.mergeSort (· ≤ ·)).getD (9 * counts.length / 10) 0) := by
  rw [ninthDecile]
  by_cases hnil : counts = []
  · rw [hnil, if_pos List.isEmpty_nil, List.mergeSort_nil, List.getD_nil]
  · obtain ⟨x, -, hshare, hfloor⟩ := share_decile h
    -- the last index is never less than the share
    have hmin : min (counts.length - 1) (9 * counts.length / 10) = 9 * counts.length / 10 := by
      have := List.length_pos_iff.mpr hnil
      omega
    rw [if_neg (mt List.isEmpty_iff.mp hnil), hshare, hfloor]
    simp only [bind, Except.bind, pure, Except.pure, Int.toNat_natCast, hmin,
      List.getD_eq_getElem?_getD]

theorem common_eq (h : (counts.filter (0 < ·)).length < 2 ^ 48)
    (hperm : s.Perm (counts.filter (0 < ·))) (hsorted : s.Pairwise (· ≤ ·)) :
    common counts = .ok (max 10 (s.getD (9 * s.length / 10) 0)) := by
  rw [common, ninthDecile_eq h, mergeSort_eq_of_pairwise hperm hsorted, hperm.length_eq]
  rfl

theorem few_eq (hn : n < 2 ^ 48) : few n = .ok (max 2 (n / 20 : Nat)) := by
  obtain ⟨x, -, hshare, hfloor⟩ := share_fraction hn
  rw [few, hshare, hfloor, Nat.one_mul]
  rfl

theorem countP_common_lt (hperm : s.Perm (counts.filter (0 < ·))) (hsorted : s.Pairwise (· ≤ ·)) :
    10 * counts.countP (max 10 (s.getD (9 * s.length / 10) 0) < ·) ≤ s.length := by
  have hle : counts.countP (max 10 (s.getD (9 * s.length / 10) 0) < ·) ≤
      s.countP (s.getD (9 * s.length / 10) 0 < ·) := by
    rw [hperm.countP_eq, List.countP_filter]
    refine List.countP_mono_left fun a _ ha => ?_
    simp only [decide_eq_true_eq, Bool.and_eq_true] at ha ⊢
    omega
  rcases Nat.eq_zero_or_pos s.length with hzero | hpos
  · have := s.countP_le_length (p := (s.getD (9 * s.length / 10) 0 < ·))
    omega
  · have := countP_getD_lt hsorted (i := 9 * s.length / 10) (by omega)
    omega

/-- **The thresholds are those of exact arithmetic.** With less than `2 ^ 48` files and pages, the
threshold for common operations is the positive count at the exact ninth decile, and the one for a few
pages is the exact twentieth of the pages, though both are read off rounded products. The order of the
counts does not matter, and at most a tenth of the files lies above the threshold for common operations. -/
theorem thresholds_exact (counts : List Int) (n pages : Nat)
    (hcount : (counts.filter (0 < ·)).length = n) (hn : n < 2 ^ 48) (hpages : pages < 2 ^ 48) :
    -- both constants and both products are rounded to the nearest number
    (RoundsTo (9 / 10) decile ∧ RoundsTo (1 / 20) fraction ∧
      (∃ x, RoundsTo (n * decile.value) x ∧ share n decile = .ok ⌊x.value⌋) ∧
      ∃ x, RoundsTo (pages * fraction.value) x ∧ share pages fraction = .ok ⌊x.value⌋) ∧
    -- the threshold of common operations is read off the sorted counts, at an index that exists
    (∀ s : List Int, s.Perm (counts.filter (0 < ·)) → s.Pairwise (· ≤ ·) →
      (s ≠ [] → 9 * n / 10 < s.length) ∧ common counts = .ok (max 10 (s.getD (9 * n / 10) 0))) ∧
    few pages = .ok (max 2 (pages / 20 : Nat)) ∧
    (∀ counts' : List Int, (counts'.filter (0 < ·)).Perm (counts.filter (0 < ·)) →
      common counts' = common counts) ∧
    (∃ t, common counts = .ok t ∧ 10 * counts.countP (t < ·) ≤ n) ∧
    -- a run uses these thresholds
    ∀ reachability : Table Nat, reachability.values.map Int.ofNat = counts →
      ∃ t, Engine.thresholds reachability pages = .ok t ∧
        common counts = .ok t.common ∧ few pages = .ok t.few := by
  subst hcount
  obtain ⟨s, hperm, hsorted⟩ : ∃ s : List Int,
      s.Perm (counts.filter (0 < ·)) ∧ s.Pairwise (· ≤ ·) :=
    ⟨_, List.mergeSort_perm _ _, List.pairwise_mergeSort' (· ≤ ·) (counts.filter (0 < ·))⟩
  have hcommon := common_eq hn hperm hsorted
  have hfew := few_eq hpages
  obtain ⟨x, hx, hshare, -⟩ := share_decile hn
  obtain ⟨y, hy, hshare', -⟩ := share_fraction hpages
  refine ⟨⟨roundsTo_decile, roundsTo_fraction, ⟨x, hx, hshare⟩, y, hy, hshare'⟩, ?_, hfew, ?_,
    ⟨_, hcommon, ?_⟩, ?_⟩
  · intro s hperm hsorted
    rw [← hperm.length_eq]
    refine ⟨fun hne => ?_, common_eq hn hperm hsorted⟩
    have := List.length_pos_iff.mpr hne
    omega
  · intro counts' hperm
    rw [common, common, ninthDecile_perm hperm]
  · rw [← hperm.length_eq]
    exact countP_common_lt hperm hsorted
  · rintro reachability rfl
    refine ⟨⟨_, _⟩, ?_, hcommon, hfew⟩
    rw [Engine.thresholds, hcommon, hfew]
    rfl

/-- Nine tenths of ten files and a twentieth of sixty pages are integers. -/
theorem thresholds_exact_ten :
    ([3, 14, 0, 15, 9, 26, 5, 35, 8, 97, 93].filter (0 < ·)).length = 10 ∧
      common [3, 14, 0, 15, 9, 26, 5, 35, 8, 97, 93] = .ok 97 ∧ few 60 = .ok 3 := by
  obtain ⟨-, hcommon, hfew, -⟩ :=
    thresholds_exact [3, 14, 0, 15, 9, 26, 5, 35, 8, 97, 93] 10 60 (by decide) (by decide) (by decide)
  exact ⟨by decide, (hcommon [3, 5, 8, 9, 14, 15, 26, 35, 93, 97] (by decide) (by decide)).2, hfew⟩

end PageReach.Threshold
