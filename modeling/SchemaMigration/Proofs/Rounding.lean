import Mathlib.Algebra.Order.Field.Power
import Mathlib.Algebra.Order.Ring.Rat
import Mathlib.Tactic.FieldSimp
import Mathlib.Tactic.Linarith
import Mathlib.Tactic.NormNum
import Mathlib.Tactic.Positivity
import Mathlib.Tactic.Ring
import SchemaMigration.Numeral.Binary64

/-!
Rounding to binary64, specified by the distance to all other numbers of the format. The rounded
fraction is the nearest number, of two nearest ones that with the even significand.
-/

namespace SchemaMigration

structure WrittenAs (y : ℚ) (m e : ℤ) : Prop where
  bits : |m| < 2 ^ 53
  place : -1074 ≤ e
  eq : y = m * 2 ^ e

def Representable (y : ℚ) : Prop :=
  ∃ m e : ℤ, WrittenAs y m e

/-- Whether the significand is even once it has all the bits that it can have. -/
def EvenSignificand (y : ℚ) : Prop :=
  ∃ m e : ℤ, WrittenAs y m e ∧ (e = -1074 ∨ 2 ^ 52 ≤ |m|) ∧ Even m

/-- The second number is the representable one nearest to the first, of two nearest ones the one
with the even significand. -/
structure RoundsTo (q y : ℚ) : Prop where
  representable : Representable y
  nearest : ∀ z, Representable z → |q - y| ≤ |q - z|
  even : ∀ z, Representable z → z ≠ y → |q - z| = |q - y| → EvenSignificand y

theorem WrittenAs.neg {y : ℚ} {m e : ℤ} (h : WrittenAs y m e) : WrittenAs (-y) (-m) e where
  bits := by rw [abs_neg]; exact h.bits
  place := h.place
  eq := by rw [h.eq]; push_cast; ring

theorem Representable.neg {y : ℚ} : Representable y → Representable (-y)
  | ⟨m, e, h⟩ => ⟨-m, e, h.neg⟩

theorem EvenSignificand.neg {y : ℚ} : EvenSignificand y → EvenSignificand (-y)
  | ⟨m, e, h, hfull, heven⟩ => ⟨-m, e, h.neg, by rwa [abs_neg], heven.neg⟩

/-- Integers of 53 bits are representable, and so is the next power of two. -/
theorem representable_intCast {k : ℤ} (h : |k| ≤ 2 ^ 53) : Representable k := by
  have hpower : Representable ((2 ^ 53 : ℤ) : ℚ) :=
    ⟨2 ^ 52, 1, by norm_num, by norm_num, by norm_num⟩
  rcases h.lt_or_eq with hlt | heq
  · exact ⟨k, 0, hlt, by norm_num, by simp⟩
  · rcases (abs_eq (by norm_num)).mp heq with rfl | rfl
    · exact hpower
    · rw [Int.cast_neg]
      exact hpower.neg

namespace WrittenAs

variable {y : ℚ} {m e s : ℤ}

/-- A number can be written with a smaller exponent, if the significand may have more bits. -/
theorem eq_mul (h : WrittenAs y m e) (hs : s ≤ e) :
    y = ((m * 2 ^ (e - s).toNat : ℤ) : ℚ) * 2 ^ s := by
  have hpow : (2 : ℚ) ^ e = 2 ^ (e - s).toNat * 2 ^ s := by
    rw [← zpow_natCast, Int.toNat_of_nonneg (by omega), ← zpow_add₀ two_ne_zero]
    congr 1
    ring
  rw [h.eq, hpow]
  push_cast
  ring

theorem lt (h : WrittenAs y m e) : y < 2 ^ (e + 53) := by
  have hm : (m : ℚ) < 2 ^ (53 : ℤ) := by exact_mod_cast lt_of_abs_lt h.bits
  calc y = m * 2 ^ e := h.eq
    _ < 2 ^ (53 : ℤ) * 2 ^ e := by gcongr
    _ = 2 ^ (e + 53) := by rw [← zpow_add₀ two_ne_zero, add_comm]

end WrittenAs

/-- A representable number is a multiple of the unit, or it has a smaller place and is itself
smaller than all that has 53 bits above the unit. -/
theorem Representable.grid_or_below {z : ℚ} (hz : Representable z) (s : ℤ) :
    (∃ K : ℤ, z = K * 2 ^ s) ∨ -1074 < s ∧ z < 2 ^ (s + 52) := by
  obtain ⟨m, k, hmk⟩ := hz
  have hplace := hmk.place
  by_cases hk : s ≤ k
  · exact .inl ⟨_, hmk.eq_mul hk⟩
  · exact .inr ⟨by omega, hmk.lt.trans_le (zpow_le_zpow_right₀ one_le_two (by omega))⟩

/-- Between two numbers with even significands there is another number. -/
theorem EvenSignificand.exists_between {y y' : ℚ} (h : EvenSignificand y) (h' : EvenSignificand y')
    (hnonneg : 0 ≤ y) (hlt : y < y') : ∃ z, Representable z ∧ y < z ∧ z < y' := by
  obtain ⟨m, e, hme, hfull, heven⟩ := h
  obtain ⟨m', e', hme', -, heven'⟩ := h'
  have hunit : (0 : ℚ) < 2 ^ e := by positivity
  have hm : 0 ≤ m := by
    rw [hme.eq] at hnonneg
    exact_mod_cast nonneg_of_mul_nonneg_left hnonneg hunit
  have habs : |m| = m := abs_of_nonneg hm
  have hbits := hme.bits
  rw [habs] at hbits hfull
  -- A larger number has no smaller unit.
  have he : e ≤ e' := by
    rcases hfull with he | hfull
    · exact he ▸ hme'.place
    · have hlow : (2 : ℚ) ^ (e + 52) ≤ y := by
        have hm : (2 : ℚ) ^ (52 : ℤ) ≤ m := by exact_mod_cast hfull
        rw [hme.eq, add_comm, zpow_add₀ two_ne_zero]
        gcongr
      have hpow := (hlow.trans_lt hlt).trans hme'.lt
      have hexp := (zpow_lt_zpow_iff_right₀ one_lt_two).mp hpow
      omega
  have hy' := hme'.eq_mul he
  let K := m' * 2 ^ (e' - e).toNat
  have hK : m < K := by
    rw [hme.eq, hy'] at hlt
    exact_mod_cast lt_of_mul_lt_mul_right hlt hunit.le
  have hstep : m + 1 < K := by
    obtain ⟨i, hi⟩ := heven
    obtain ⟨j, hj⟩ : Even K := heven'.mul_right _
    omega
  have hsmall : |m + 1| < 2 ^ 53 := by
    obtain ⟨i, hi⟩ := heven
    rw [abs_of_nonneg (by omega)]
    omega
  refine ⟨((m + 1 : ℤ) : ℚ) * 2 ^ e, ⟨m + 1, e, hsmall, hme.place, rfl⟩, ?_, ?_⟩
  · rw [hme.eq]
    gcongr
    exact lt_add_one m
  · rw [hy']
    gcongr

namespace RoundsTo

variable {q y z : ℚ}

/-- Rounding is symmetric about zero. -/
theorem neg (h : RoundsTo q y) : RoundsTo (-q) (-y) := by
  have habs (z : ℚ) : |-q - z| = |q - -z| := by
    rw [← abs_neg]
    congr 1
    ring
  refine ⟨h.representable.neg, fun z hz => ?_, fun z hz hne heq => ?_⟩
  · rw [habs, habs, neg_neg]
    exact h.nearest (-z) hz.neg
  · rw [habs, habs, neg_neg] at heq
    exact (h.even (-z) hz.neg (fun heq => hne (by rw [← heq, neg_neg])) heq).neg

/-- A number that is representable is not changed. -/
theorem self (hq : Representable q) : RoundsTo q q := by
  refine ⟨hq, fun z _ => ?_, fun z _ hne heq => ?_⟩
  · rw [sub_self, abs_zero]
    exact abs_nonneg _
  · rw [sub_self, abs_zero, abs_eq_zero, sub_eq_zero] at heq
    exact absurd heq.symm hne

/-- A number rounds to one number only. -/
theorem unique (h : RoundsTo q y) (h' : RoundsTo q z) : y = z := by
  by_contra hne
  wlog hlt : y < z generalizing y z
  · exact this h' h (Ne.symm hne) (lt_of_le_of_ne (not_lt.mp hlt) (Ne.symm hne))
  have heq : |q - y| = |q - z| :=
    le_antisymm (h.nearest z h'.representable) (h'.nearest y h.representable)
  have hmiddle : q - y = z - q := by
    rcases abs_eq_abs.mp heq with heq | heq <;> linarith
  have heven := h.even z h'.representable (Ne.symm hne) heq.symm
  have heven' := h'.even y h.representable hne heq
  -- A number between the two would be nearer than they are.
  obtain ⟨w, hw, hlow, hhigh⟩ : ∃ w, Representable w ∧ y < w ∧ w < z := by
    rcases le_or_gt 0 y with hy | hy
    · exact heven.exists_between heven' hy hlt
    rcases le_or_gt z 0 with hz | hz
    · obtain ⟨w, hw, hlow, hhigh⟩ :=
        heven'.neg.exists_between heven.neg (by linarith) (neg_lt_neg hlt)
      exact ⟨-w, hw.neg, by linarith, by linarith⟩
    · exact ⟨0, ⟨0, 0, by norm_num, by norm_num, by norm_num⟩, hy, hz⟩
  have hnearer : |q - w| < |q - y| := by
    rw [abs_of_pos (by linarith : 0 < q - y), abs_lt]
    constructor <;> linarith
  exact absurd (h.nearest w hw) (not_le.mpr hnearer)

end RoundsTo

section Grid

variable {q t : ℚ} {s : ℤ} {M : ℤ}

theorem abs_sub_grid (q : ℚ) (s K : ℤ) : |q - K * 2 ^ s| = 2 ^ s * |q / 2 ^ s - K| := by
  have hpos : (0 : ℚ) < 2 ^ s := by positivity
  have hscale : q - K * 2 ^ s = 2 ^ s * (q / 2 ^ s - K) := by field_simp
  rw [hscale, abs_mul, abs_of_pos hpos]

/-- Other integers are at least half of one away. -/
theorem half_le_abs_sub (h : |t - M| ≤ 1 / 2) {K : ℤ} (hne : K ≠ M) : 1 / 2 ≤ |t - K| := by
  have hint : 1 ≤ |M - K| := Int.one_le_abs (sub_ne_zero.mpr hne.symm)
  have hone : (1 : ℚ) ≤ |(M : ℚ) - K| := by exact_mod_cast hint
  have htriangle : |(M : ℚ) - K| ≤ |t - M| + |t - K| := by
    rw [abs_sub_comm t M]
    exact abs_sub_le (M : ℚ) t K
  linarith

/-- An integer to which a number is rounded in some unit. The number has 53 bits above the unit, or
fewer of them above the smallest unit, and a tie goes to the even integer. -/
structure OnGrid (q : ℚ) (M s : ℤ) : Prop where
  half : |q / 2 ^ s - M| ≤ 1 / 2
  tie : |q / 2 ^ s - M| = 1 / 2 → Even M
  place : -1074 ≤ s
  nonneg : 0 ≤ q
  full : s = -1074 ∨ 2 ^ (s + 52) ≤ q
  below : q < 2 ^ (s + 53)

namespace OnGrid

theorem div_unit (s n : ℤ) : (2 : ℚ) ^ (s + n) / 2 ^ s = 2 ^ n := by
  rw [zpow_add₀ two_ne_zero]
  field_simp

theorem significand_nonneg (h : OnGrid q M s) : 0 ≤ M := by
  have hscaled : 0 ≤ q / 2 ^ s := div_nonneg h.nonneg (by positivity)
  have hM : (-1 : ℚ) < M := by linarith [(abs_le.mp h.half).2]
  have hM : -1 < M := by exact_mod_cast hM
  omega

theorem significand_le (h : OnGrid q M s) : M ≤ 2 ^ 53 := by
  have hscaled := div_lt_div_of_pos_right h.below (by positivity : (0 : ℚ) < 2 ^ s)
  rw [div_unit] at hscaled
  have hM : (M : ℚ) < 2 ^ (53 : ℤ) + 1 := by linarith [(abs_le.mp h.half).1]
  have hM : M < 2 ^ 53 + 1 := by exact_mod_cast hM
  omega

/-- The significand is full, unless the grid is the finest one. -/
theorem significand_full (h : OnGrid q M s) : s = -1074 ∨ 2 ^ 52 ≤ M := by
  refine h.full.imp id fun hq => ?_
  have hscaled := div_le_div_of_nonneg_right hq (by positivity : (0 : ℚ) ≤ 2 ^ s)
  rw [div_unit] at hscaled
  have hM : (2 : ℚ) ^ (52 : ℤ) - 1 < M := by linarith [(abs_le.mp h.half).2]
  have hM : (2 : ℤ) ^ 52 - 1 < M := by exact_mod_cast hM
  omega

/-- The parts of what is rounded to. A carry into a 54th bit leaves a power of two, which has a
shorter significand. -/
theorem exists_writtenAs (h : OnGrid q M s) :
    ∃ m e : ℤ, WrittenAs (M * 2 ^ s) m e ∧ (e = -1074 ∨ 2 ^ 52 ≤ |m|) ∧ (Even M → Even m) := by
  have hmax := h.significand_le
  have hplace := h.place
  by_cases hcarry : M = 2 ^ 53
  · refine ⟨2 ^ 52, s + 1, ⟨by norm_num, by omega, ?_⟩, .inr (by norm_num), fun _ => ?_⟩
    · rw [hcarry, zpow_add₀ two_ne_zero]
      push_cast
      ring
    · exact ⟨2 ^ 51, by norm_num⟩
  · have habs : |M| = M := abs_of_nonneg h.significand_nonneg
    exact ⟨M, s, ⟨by rw [habs]; omega, hplace, rfl⟩, by rw [habs]; exact h.significand_full, id⟩

/-- No other representable number is nearer, and only another multiple of the unit is as near. -/
theorem nearest (h : OnGrid q M s) {z : ℚ} (hz : Representable z) (hne : z ≠ M * 2 ^ s) :
    |q - M * 2 ^ s| ≤ |q - z| ∧ (|q - z| = |q - M * 2 ^ s| → Even M) := by
  have hunit : (0 : ℚ) < 2 ^ s := by positivity
  have hmultiple {K : ℤ} (hK : K ≠ M) : |q - M * 2 ^ s| ≤ |q - K * 2 ^ s| := by
    rw [abs_sub_grid, abs_sub_grid]
    exact mul_le_mul_of_nonneg_left (h.half.trans (half_le_abs_sub h.half hK)) hunit.le
  rcases hz.grid_or_below s with ⟨K, rfl⟩ | ⟨hs, hz⟩
  · have hK : K ≠ M := by
      rintro rfl
      exact hne rfl
    refine ⟨hmultiple hK, fun heq => h.tie ?_⟩
    rw [abs_sub_grid, abs_sub_grid] at heq
    have heq : |q / 2 ^ s - K| = |q / 2 ^ s - M| := mul_left_cancel₀ hunit.ne' heq
    exact le_antisymm h.half (heq ▸ half_le_abs_sub h.half hK)
  -- All numbers with a smaller place are farther away than the least one with 53 bits.
  · have hq : 2 ^ (s + 52) ≤ q := h.full.resolve_left hs.ne'
    have hgrid : |q - M * 2 ^ s| ≤ |q - 2 ^ (s + 52)| := by
      have hpower : (2 : ℚ) ^ (s + 52) = ((2 ^ 52 : ℤ) : ℚ) * 2 ^ s := by
        rw [zpow_add₀ two_ne_zero]
        push_cast
        ring
      by_cases h52 : 2 ^ 52 = M
      · rw [hpower, h52]
      · rw [hpower]
        exact hmultiple h52
    have hfar : |q - M * 2 ^ s| < |q - z| := by
      calc |q - M * 2 ^ s| ≤ |q - 2 ^ (s + 52)| := hgrid
        _ = q - 2 ^ (s + 52) := abs_of_nonneg (by linarith)
        _ < q - z := by linarith
        _ ≤ |q - z| := le_abs_self _
    exact ⟨hfar.le, fun heq => absurd heq hfar.ne'⟩

/-- A number rounds to the point of its grid that is nearest. -/
theorem roundsTo (h : OnGrid q M s) : RoundsTo q (M * 2 ^ s) := by
  obtain ⟨m, e, hme, hbits, heven⟩ := h.exists_writtenAs
  refine ⟨⟨m, e, hme⟩, fun z hz => ?_, fun z hz hne heq => ?_⟩
  · by_cases hne : z = M * 2 ^ s
    · rw [hne]
    · exact (h.nearest hz hne).1
  · exact ⟨m, e, hme, hbits, heven ((h.nearest hz hne).2 heq)⟩

end OnGrid

end Grid

section Fraction

variable {num den : ℕ}

/-- A tie goes to the even integer. -/
theorem even_roundHalfEven (hden : 0 < den)
    (h : 2 * num = (2 * roundHalfEven num den + 1) * den ∨
      2 * roundHalfEven num den * den = 2 * num + den) : Even (roundHalfEven num den) := by
  have hdiv := Nat.div_add_mod num den
  have hlt := Nat.mod_lt num hden
  unfold roundHalfEven at h ⊢
  dsimp only at h ⊢
  generalize num / den = k at *
  generalize num % den = r at *
  split_ifs at h ⊢
  · exfalso
    rcases h with h | h <;> linarith
  · exfalso
    rcases h with h | h <;> linarith
  · have hpar : (k + k % 2) % 2 = 0 := by omega
    exact Nat.even_iff.mpr hpar

/-- The integer that a fraction rounds to is within half of one, and even if it is half away. -/
theorem abs_sub_roundHalfEven (hden : 0 < den) :
    |(num : ℚ) / den - (roundHalfEven num den : ℤ)| ≤ 1 / 2 ∧
      (|(num : ℚ) / den - (roundHalfEven num den : ℤ)| = 1 / 2 →
        Even (roundHalfEven num den : ℤ)) := by
  have hpos : (0 : ℚ) < den := by exact_mod_cast hden
  obtain ⟨hbelow, habove⟩ := roundHalfEven_error num hden
  generalize hm : roundHalfEven num den = m at *
  have hbelow : 2 * (num : ℚ) ≤ (2 * m + 1) * den := by exact_mod_cast hbelow
  have habove : 2 * (m : ℚ) * den ≤ 2 * num + den := by exact_mod_cast habove
  have hsub : (num : ℚ) / den - m = (2 * num - 2 * m * den) / (2 * den) := by field_simp
  push_cast
  rw [hsub]
  constructor
  · rw [abs_le, le_div_iff₀ (by positivity), div_le_iff₀ (by positivity)]
    constructor <;> linarith
  · intro heq
    have heven : Even m := by
      rw [← hm]
      apply even_roundHalfEven hden
      rw [hm]
      -- Half a unit away, the fraction meets one of the bounds, from below or from above.
      rcases (abs_eq (by norm_num)).mp heq with h | h <;>
        rw [div_eq_iff (by positivity)] at h
      · left
        have h : 2 * (num : ℚ) = (2 * m + 1) * den := by linarith
        exact_mod_cast h
      · right
        have h : 2 * (m : ℚ) * den = 2 * num + den := by linarith
        exact_mod_cast h
    exact_mod_cast heven

theorem cast_shiftLeft_toNat (n : ℕ) (e : ℤ) :
    ((n <<< e.toNat : ℕ) : ℚ) = n * 2 ^ (max e 0) := by
  rw [Nat.shiftLeft_eq, ← Int.toNat_eq_max]
  push_cast
  rw [zpow_natCast]

theorem div_scaleDown (num den : ℕ) (e : ℤ) :
    ((scaleDown num den e).1 : ℚ) / (scaleDown num den e).2 = num / den / 2 ^ e := by
  have hpow : (2 : ℚ) ^ max (-e) 0 * 2 ^ e = 2 ^ max e 0 := by
    rw [← zpow_add₀ two_ne_zero]
    congr 1
    omega
  rw [scaleDown, cast_shiftLeft_toNat, cast_shiftLeft_toNat, ← hpow]
  field_simp

theorem scaleDown_pos (num : ℕ) (hden : 0 < den) (e : ℤ) : 0 < (scaleDown num den e).2 := by
  change 0 < den <<< e.toNat
  rw [Nat.shiftLeft_eq]
  exact Nat.mul_pos hden (Nat.two_pow_pos _)

/-- The binary logarithm of a fraction, rounded down. -/
theorem floorLog2_spec (hnum : 0 < num) (hden : 0 < den) :
    (2 : ℚ) ^ floorLog2 num den ≤ num / den ∧
      (num / den : ℚ) < 2 ^ (floorLog2 num den + 1) := by
  have hpos : (0 : ℚ) < den := by exact_mod_cast hden
  have hnumLow : (2 : ℚ) ^ (num.log2 : ℤ) ≤ num := by
    exact_mod_cast Nat.log2_self_le hnum.ne'
  have hnumHigh : (num : ℚ) < 2 ^ (num.log2 + 1 : ℤ) := by
    exact_mod_cast Nat.lt_log2_self
  have hdenLow : (2 : ℚ) ^ (den.log2 : ℤ) ≤ den := by
    exact_mod_cast Nat.log2_self_le hden.ne'
  have hdenHigh : (den : ℚ) < 2 ^ (den.log2 + 1 : ℤ) := by
    exact_mod_cast Nat.lt_log2_self
  -- The difference of the two logarithms is off by one at most.
  let e : ℤ := num.log2 - den.log2
  have hlow : (2 : ℚ) ^ (e - 1) ≤ num / den := by
    rw [le_div_iff₀ hpos]
    calc (2 : ℚ) ^ (e - 1) * den ≤ 2 ^ (e - 1) * 2 ^ (den.log2 + 1 : ℤ) := by gcongr
      _ = 2 ^ (num.log2 : ℤ) := by
        rw [← zpow_add₀ two_ne_zero]
        congr 1
        omega
      _ ≤ num := hnumLow
  have hhigh : (num : ℚ) / den < 2 ^ (e + 1) := by
    rw [div_lt_iff₀ hpos]
    calc (num : ℚ) < 2 ^ (num.log2 + 1 : ℤ) := hnumHigh
      _ = 2 ^ (e + 1) * 2 ^ (den.log2 : ℤ) := by
        rw [← zpow_add₀ two_ne_zero]
        congr 1
        omega
      _ ≤ 2 ^ (e + 1) * den := by gcongr
  -- The comparison tells on which side of `2 ^ e` the fraction is.
  have hcompare : (scaleDown num den e).2 ≤ (scaleDown num den e).1 ↔ (2 : ℚ) ^ e ≤ num / den := by
    have hscaled : (0 : ℚ) < (scaleDown num den e).2 := by
      exact_mod_cast scaleDown_pos num hden e
    rw [← one_le_div (by positivity : (0 : ℚ) < 2 ^ e), ← div_scaleDown, one_le_div hscaled,
      Nat.cast_le]
  have hfloor : floorLog2 num den = if (2 : ℚ) ^ e ≤ num / den then e else e - 1 :=
    if_congr hcompare rfl rfl
  rw [hfloor]
  split
  case isTrue h => exact ⟨h, hhigh⟩
  case isFalse h => exact ⟨hlow, by rw [sub_add_cancel]; exact not_le.mp h⟩

end Fraction

namespace Binary64

variable {num den : ℕ}

def value (x : Binary64) : ℚ :=
  x.significand * 2 ^ x.exponent

def rounded (num den : ℕ) : Binary64 :=
  let e := max (floorLog2 num den - 52) (-1074)
  ⟨roundHalfEven (scaleDown num den e).1 (scaleDown num den e).2, e⟩

/-- What is computed is the nearest point of the grid. -/
theorem onGrid_rounded (hnum : 0 < num) (hden : 0 < den) :
    OnGrid (num / den) (rounded num den).significand (rounded num den).exponent := by
  obtain ⟨hlow, hhigh⟩ := floorLog2_spec hnum hden
  let e := max (floorLog2 num den - 52) (-1074)
  obtain ⟨hhalf, htie⟩ := abs_sub_roundHalfEven (scaleDown_pos num hden e)
  rw [div_scaleDown] at hhalf htie
  have hbelow : (num : ℚ) / den < 2 ^ (e + 53) :=
    hhigh.trans_le (zpow_le_zpow_right₀ one_le_two (by omega))
  have hfull : e = -1074 ∨ (2 : ℚ) ^ (e + 52) ≤ num / den := by
    by_cases he : e = -1074
    · exact .inl he
    · have hfloor : e + 52 = floorLog2 num den := by omega
      exact .inr (hfloor ▸ hlow)
  exact ⟨hhalf, htie, le_max_right _ _, by positivity, hfull, hbelow⟩

theorem toNat?_eq_some_iff {x : Binary64} {k : ℕ} : x.toNat? = some k ↔ x.value = k := by
  obtain ⟨m, e⟩ := x
  obtain ⟨n, rfl | rfl⟩ := e.eq_nat_or_neg
  -- With such an exponent every significand gives an integer.
  · have hzero : (-(n : ℤ)).toNat = 0 := by omega
    simp only [toNat?, value, hzero, Int.toNat_natCast, Nat.shiftLeft_eq, pow_zero, mul_one,
      Nat.mod_one, Nat.div_one, zpow_natCast, reduceIte, Option.some.injEq]
    norm_cast
  · have hzero : (-(n : ℤ)).toNat = 0 := by omega
    have hpos : (2 : ℚ) ^ n ≠ 0 := by positivity
    have hvalue : value ⟨m, -(n : ℤ)⟩ = k ↔ m = k * 2 ^ n := by
      rw [value, zpow_neg, zpow_natCast, ← div_eq_mul_inv, div_eq_iff hpos]
      norm_cast
    rw [hvalue]
    simp only [toNat?, neg_neg, hzero, Int.toNat_natCast, Nat.shiftLeft_eq, pow_zero, mul_one,
      one_mul]
    constructor
    · intro h
      split at h
      case isTrue hmod =>
        cases h
        exact (Nat.div_mul_cancel (Nat.dvd_of_mod_eq_zero hmod)).symm
      case isFalse => cases h
    · rintro rfl
      rw [if_pos (Nat.mul_mod_left k _), Nat.mul_div_cancel k (Nat.two_pow_pos n)]

/-- The comparison with a large power of two looks at the exact number. -/
theorem le_shiftLeft_iff {x : Binary64} {q : ℚ} (h : OnGrid q x.significand x.exponent) {n : ℕ}
    (hn : 53 < n) : 1 <<< n ≤ x.significand <<< x.exponent.toNat ↔ (2 : ℚ) ^ n ≤ x.value := by
  rw [Nat.one_shiftLeft]
  by_cases hexponent : 0 ≤ x.exponent
  · have hvalue : x.value = ((x.significand <<< x.exponent.toNat : ℕ) : ℚ) := by
      rw [cast_shiftLeft_toNat, value, max_eq_left hexponent]
    rw [hvalue]
    exact_mod_cast Iff.rfl
  -- A significand alone is not that large.
  · have hzero : x.exponent.toNat = 0 := by omega
    have hbits : x.significand ≤ 2 ^ 53 := by exact_mod_cast h.significand_le
    have hsmall : x.significand < 2 ^ n := hbits.trans_lt (Nat.pow_lt_pow_right one_lt_two hn)
    have hvalue : x.value ≤ x.significand := by
      have hunit : (2 : ℚ) ^ x.exponent ≤ 1 := zpow_le_one_of_nonpos₀ one_le_two (by omega)
      exact mul_le_of_le_one_right (by positivity) hunit
    rw [hzero, Nat.shiftLeft_zero]
    refine iff_of_false (not_le.mpr hsmall) (not_le.mpr (hvalue.trans_lt ?_))
    exact_mod_cast hsmall

/-- The integer that is read off the nearest number is what the fraction rounds to, and there is
none exactly when it rounds to no integer or beyond the largest number. -/
theorem exists_roundsTo (num : ℕ) (hden : 0 < den) :
    ∃ y : ℚ, RoundsTo (num / den) y ∧ 0 ≤ y ∧
      ∀ k : ℕ, (nearest? num den).bind toNat? = some k ↔ y = k ∧ y < 2 ^ 1024 := by
  rcases Nat.eq_zero_or_pos num with rfl | hnum
  · -- Zero is represented as it is; it has no logarithm.
    have hzero : RoundsTo ((0 : ℕ) / den) 0 := by
      rw [Nat.cast_zero, zero_div]
      exact .self ⟨0, 0, by norm_num, by norm_num, by norm_num⟩
    refine ⟨0, hzero, le_rfl, fun k => ?_⟩
    change toNat? ⟨0, 0⟩ = some k ↔ _
    rw [toNat?_eq_some_iff, and_iff_left (pow_pos two_pos 1024)]
    simp [value]
  · have hgrid := onGrid_rounded hnum hden
    have hnonneg : 0 ≤ (rounded num den).value := by
      rw [value]
      positivity
    refine ⟨(rounded num den).value, hgrid.roundsTo, hnonneg, fun k => ?_⟩
    -- There is no nearest number beyond the largest one.
    have hnearest : nearest? num den =
        if (2 : ℚ) ^ 1024 ≤ (rounded num den).value then none else some (rounded num den) :=
      (if_neg hnum.ne').trans (if_congr (le_shiftLeft_iff hgrid (by norm_num)) rfl rfl)
    rw [hnearest]
    split
    case isTrue hlarge => exact iff_of_false nofun fun hk => absurd hk.2 (not_lt.mpr hlarge)
    case isFalse hsmall =>
      rw [Option.bind_some, toNat?_eq_some_iff, and_iff_left (not_le.mp hsmall)]

end Binary64

end SchemaMigration
