import Mathlib.Algebra.Order.Field.Power
import Mathlib.Algebra.Order.Field.Rat
import Mathlib.Tactic.FieldSimp
import Mathlib.Tactic.Linarith
import Mathlib.Tactic.NormNum
import Mathlib.Tactic.Positivity
import Mathlib.Tactic.Ring
import Wireframe.Binary64.Basic

namespace Wireframe.Binary64

theorem zpow_eq_div (b : ℚ) (e : ℤ) : b ^ e = b ^ e.toNat / b ^ (-e).toNat := by
  rcases Int.le_total 0 e with h | h
  · obtain ⟨n, rfl⟩ := Int.eq_ofNat_of_zero_le h
    simp
  · obtain ⟨n, hn⟩ := Int.eq_ofNat_of_zero_le (Int.neg_nonneg.mpr h)
    obtain rfl : e = -n := by omega
    simp

-- A whole number moved by places.
theorem cast_shiftLeft (n k : Nat) : ((n <<< k : Nat) : ℚ) = n * 2 ^ k := by
  rw [Nat.shiftLeft_eq]
  push_cast
  rfl

variable {num den : Nat}

theorem scaleDown_pos (hden : 0 < den) (e : ℤ) : 0 < (scaleDown num den e).2 := by
  simp only [scaleDown, Nat.shiftLeft_eq]
  exact Nat.mul_pos hden (Nat.two_pow_pos _)

theorem scaleDown_div (num den : Nat) (e : ℤ) :
    ((scaleDown num den e).1 : ℚ) / (scaleDown num den e).2 = num / den / 2 ^ e := by
  rw [scaleDown, cast_shiftLeft, cast_shiftLeft, zpow_eq_div 2 e]
  field_simp

-- The logarithm of a whole number, rounded down.
theorem two_pow_log2_le (hnum : 0 < num) : ((2 : ℚ) ^ num.log2) ≤ num := by
  exact_mod_cast Nat.log2_self_le (by omega)

theorem lt_two_pow_log2 (num : Nat) : (num : ℚ) < 2 ^ (num.log2 + 1) := by
  exact_mod_cast Nat.lt_log2_self

theorem log2Fraction_spec (hnum : 0 < num) (hden : 0 < den) :
    (2 : ℚ) ^ log2Fraction num den ≤ num / den ∧
      (num / den : ℚ) < 2 ^ (log2Fraction num den + 1) := by
  let e : ℤ := (num.log2 : ℤ) - den.log2
  have hnumQ : (0 : ℚ) < num := by exact_mod_cast hnum
  have hdenQ : (0 : ℚ) < den := by exact_mod_cast hden
  have hlow : (2 : ℚ) ^ (e - 1) ≤ num / den := by
    have he : e - 1 = (num.log2 : ℤ) - (den.log2 + 1 : Nat) := by omega
    rw [he, zpow_sub₀ two_ne_zero, zpow_natCast, zpow_natCast]
    exact div_le_div₀ hnumQ.le (two_pow_log2_le hnum) hdenQ (lt_two_pow_log2 den).le
  have hhigh : (num / den : ℚ) < 2 ^ (e + 1) := by
    have he : e + 1 = (num.log2 + 1 : Nat) - (den.log2 : ℤ) := by omega
    rw [he, zpow_sub₀ two_ne_zero, zpow_natCast, zpow_natCast]
    exact div_lt_div₀ (lt_two_pow_log2 num) (two_pow_log2_le hden) (by positivity) (by positivity)
  have hscaled : (scaleDown num den e).2 ≤ (scaleDown num den e).1 ↔
      (2 : ℚ) ^ e ≤ num / den := by
    have hpos : (0 : ℚ) < (scaleDown num den e).2 := by exact_mod_cast scaleDown_pos hden e
    have hpower : (0 : ℚ) < 2 ^ e := by positivity
    rw [← one_le_div hpower, ← scaleDown_div, one_le_div hpos, Nat.cast_le]
  by_cases h : (scaleDown num den e).2 ≤ (scaleDown num den e).1
  · have hlog : log2Fraction num den = e := if_pos h
    rw [hlog]
    exact ⟨hscaled.mp h, hhigh⟩
  · have hlog : log2Fraction num den = e - 1 := if_neg h
    rw [hlog, sub_add_cancel]
    exact ⟨hlow, not_le.mp (hscaled.not.mp h)⟩

theorem abs_roundDiv_sub_le (num : Nat) (hden : 0 < den) :
    |(roundDiv num den : ℚ) - num / den| ≤ 1 / 2 := by
  have hdenQ : (0 : ℚ) < den := by exact_mod_cast hden
  have hsplit : (num : ℚ) / den = (num / den : Nat) + (num % den : Nat) / (den : ℚ) := by
    have hnat : (num : ℚ) = den * (num / den : Nat) + (num % den : Nat) := by
      exact_mod_cast (Nat.div_add_mod num den).symm
    rw [div_eq_iff hdenQ.ne', add_mul, div_mul_cancel₀ _ hdenQ.ne']
    linarith
  have hless : ((num % den : Nat) : ℚ) / den < 1 := by
    rw [div_lt_one hdenQ]
    exact_mod_cast Nat.mod_lt num hden
  have hpos : (0 : ℚ) ≤ ((num % den : Nat) : ℚ) / den := by positivity
  rw [roundDiv, hsplit]
  split
  · next hdown =>
    have htwice : 2 * (num % den) ≤ den := by
      simp only [Bool.or_eq_true, decide_eq_true_eq, Bool.and_eq_true, beq_iff_eq] at hdown
      omega
    have hhalf : ((num % den : Nat) : ℚ) / den ≤ 1 / 2 := by
      rw [div_le_div_iff₀ hdenQ two_pos, mul_comm]
      exact_mod_cast (by omega : 2 * (num % den) ≤ 1 * den)
    rw [abs_le]
    constructor <;> linarith
  · next hup =>
    have htwice : den ≤ 2 * (num % den) := by
      simp only [Bool.or_eq_true, decide_eq_true_eq, Bool.and_eq_true, beq_iff_eq, not_or] at hup
      omega
    have hhalf : (1 : ℚ) / 2 ≤ ((num % den : Nat) : ℚ) / den := by
      rw [div_le_div_iff₀ two_pos hdenQ, mul_comm _ (2 : ℚ)]
      exact_mod_cast (by omega : 1 * den ≤ 2 * (num % den))
    push_cast
    rw [abs_le]
    constructor <;> linarith

-- The absolute value.
def value (x : Binary64) : ℚ := x.significand * 2 ^ x.exponent

-- A number of the format.
structure Proper (x : Binary64) : Prop where
  significand : x.significand < 2 ^ 53
  least : -1074 ≤ x.exponent
  most : x.exponent ≤ 971

-- Where the exact results begin that are rounded to no number.
def limit : ℚ := (2 ^ 53 - 1 / 2) * 2 ^ (971 : ℤ)

-- The place on which a fraction is rounded.
def place (num den : Nat) : ℤ := max (log2Fraction num den - 52) (-1074)

-- The multiple of the unit of that place to which it is rounded.
def multiple (num den : Nat) : Nat :=
  roundDiv (scaleDown num den (place num den)).1 (scaleDown num den (place num den)).2

theorem lt_two_pow_place (hnum : 0 < num) (hden : 0 < den) :
    (num / den : ℚ) < 2 ^ 53 * 2 ^ place num den := by
  have hlog := (log2Fraction_spec hnum hden).2
  have hplace : log2Fraction num den + 1 ≤ 53 + place num den := by
    have := le_max_left (log2Fraction num den - 52) (-1074)
    rw [place]
    omega
  calc (num / den : ℚ) < 2 ^ (log2Fraction num den + 1) := hlog
    _ ≤ 2 ^ (53 + place num den) := zpow_le_zpow_right₀ one_le_two hplace
    _ = 2 ^ 53 * 2 ^ place num den := by
      rw [zpow_add₀ two_ne_zero]
      rfl

-- The multiple is at most half a unit off.
theorem abs_multiple_sub_le (num : Nat) (hden : 0 < den) :
    |multiple num den * (2 : ℚ) ^ place num den - num / den| ≤ 2 ^ place num den / 2 := by
  have hpower : (0 : ℚ) < 2 ^ place num den := by positivity
  have hround : |(multiple num den : ℚ) - num / den / 2 ^ place num den| ≤ 1 / 2 := by
    rw [← scaleDown_div]
    exact abs_roundDiv_sub_le _ (scaleDown_pos hden _)
  have hscaled : multiple num den * (2 : ℚ) ^ place num den - num / den =
      (multiple num den - num / den / 2 ^ place num den) * 2 ^ place num den := by
    field_simp
  calc |multiple num den * (2 : ℚ) ^ place num den - num / den|
      = |(multiple num den : ℚ) - num / den / 2 ^ place num den| * 2 ^ place num den := by
        rw [hscaled, abs_mul, abs_of_pos hpower]
    _ ≤ 1 / 2 * 2 ^ place num den := mul_le_mul_of_nonneg_right hround hpower.le
    _ = 2 ^ place num den / 2 := one_div_mul_eq_div _ _

theorem multiple_le (hnum : 0 < num) (hden : 0 < den) : multiple num den ≤ 2 ^ 53 := by
  have hpower : (0 : ℚ) < 2 ^ place num den := by positivity
  have hclose := (abs_le.mp (abs_multiple_sub_le num hden)).2
  have hless := lt_two_pow_place hnum hden
  have hunits : (multiple num den : ℚ) < 2 ^ 53 + 1 := by
    refine lt_of_mul_lt_mul_right ?_ hpower.le
    linarith
  have hnat : multiple num den < 2 ^ 53 + 1 := by exact_mod_cast hunits
  omega

-- Half a unit is a small part of the value, or of the least number.
theorem half_unit_le (hnum : 0 < num) (hden : 0 < den) :
    (2 : ℚ) ^ place num den / 2 ≤ max ((num : ℚ) / den / 2 ^ 53) (1 / 2 ^ 1075) := by
  have hlog := (log2Fraction_spec hnum hden).1
  rw [place]
  rcases max_cases (log2Fraction num den - 52) (-1074) with ⟨h, -⟩ | ⟨h, -⟩
  · apply le_max_of_le_left
    have hfactor : (2 : ℚ) ^ (52 : ℤ) * 2 = 2 ^ 53 := by norm_num
    rw [h, zpow_sub₀ two_ne_zero, div_div, hfactor]
    gcongr
  · apply le_max_of_le_right
    rw [h, zpow_neg, pow_succ' 2 1074]
    exact le_of_eq (by rw [← one_div, div_div, mul_comm]; rfl)

theorem limit_le {c : ℚ} (hc : 2 ^ 53 - 1 / 2 ≤ c) {e : ℤ} (he : 971 ≤ e) :
    limit ≤ c * 2 ^ e := by
  have hunit : (2 : ℚ) ^ (971 : ℤ) ≤ 2 ^ e := zpow_le_zpow_right₀ one_le_two he
  have hpos : (0 : ℚ) ≤ c := by linarith
  rw [limit]
  gcongr

-- What rounding an exact result has to give: a number near it, or none only if it is too large.
structure Rounds (exact : ℚ) (result : Option Binary64) : Prop where
  fits : result = none → limit ≤ exact
  near : ∀ x ∈ result, x.Proper ∧ |x.value - exact| ≤ max (exact / 2 ^ 53) (1 / 2 ^ 1075)

theorem proper_zero (negative : Bool) : (zero negative).Proper :=
  ⟨Nat.two_pow_pos 53, Int.le_refl _, Int.neg_le_of_neg_le (by decide)⟩

theorem value_zero (negative : Bool) : (zero negative).value = 0 := by
  simp [value, zero]

theorem nearest?_eq (negative : Bool) (hnum : 0 < num) :
    nearest? negative num den =
      if multiple num den = 2 ^ 53 then
        if 971 < place num den + 1 then none else some ⟨negative, 2 ^ 52, place num den + 1⟩
      else
        if 971 < place num den then none else some ⟨negative, multiple num den, place num den⟩ := by
  have hne : (num == 0) = false := beq_eq_false_iff_ne.mpr hnum.ne'
  let carried : Nat × Int :=
    if multiple num den == 2 ^ 53 then (2 ^ 52, place num den + 1)
    else (multiple num den, place num den)
  have hopen : nearest? negative num den =
      if 971 < carried.2 then none else some ⟨negative, carried.1, carried.2⟩ := by
    rw [nearest?, hne]
    rfl
  rw [hopen]
  by_cases hcarry : multiple num den = 2 ^ 53
  · have hcarried : carried = (2 ^ 52, place num den + 1) := if_pos (beq_iff_eq.mpr hcarry)
    rw [if_pos hcarry, hcarried]
  · have hcarried : carried = (multiple num den, place num den) :=
      if_neg fun h => hcarry (beq_iff_eq.mp h)
    rw [if_neg hcarry, hcarried]

section

variable (negative : Bool) (hnum : 0 < num) (hden : 0 < den)

include hnum hden

-- The multiple has a digit too many, and the unit is doubled.
theorem rounds_of_eq (hcarry : multiple num den = 2 ^ 53) :
    Rounds (num / den) (if 971 < place num den + 1 then none
      else some ⟨negative, 2 ^ 52, place num den + 1⟩) := by
  have hleast : -1074 ≤ place num den := le_max_right _ _
  have hhalf := abs_multiple_sub_le num hden
  have hfull : (multiple num den : ℚ) = 2 ^ 53 := by
    rw [hcarry]
    norm_num
  split
  · next hlarge =>
    refine ⟨fun _ => ?_, nofun⟩
    have hbelow := (abs_le.mp hhalf).2
    rw [hfull] at hbelow
    have hreach := limit_le le_rfl (by omega : 971 ≤ place num den)
    linarith
  · next hsmall =>
    refine ⟨nofun, ?_⟩
    rintro _ ⟨⟩
    have hvalue : ((2 ^ 52 : Nat) : ℚ) * 2 ^ (place num den + 1) =
        multiple num den * 2 ^ place num den := by
      rw [hfull, zpow_add_one₀ two_ne_zero]
      push_cast
      ring
    refine ⟨⟨by dsimp only; decide, by dsimp only; omega, by dsimp only; omega⟩, ?_⟩
    rw [value, hvalue]
    exact hhalf.trans (half_unit_le hnum hden)

theorem rounds_of_lt (hless : multiple num den < 2 ^ 53) :
    Rounds (num / den) (if 971 < place num den then none
      else some ⟨negative, multiple num den, place num den⟩) := by
  have hleast : -1074 ≤ place num den := le_max_right _ _
  split
  · next hlarge =>
    refine ⟨fun _ => ?_, nofun⟩
    have hlog : log2Fraction num den = 52 + place num den := by
      rw [place] at hlarge ⊢
      omega
    calc limit ≤ 2 ^ 53 * 2 ^ (place num den - 1) :=
          limit_le (by norm_num) (by omega)
      _ = 2 ^ log2Fraction num den := by
        rw [hlog, zpow_sub_one₀ two_ne_zero, zpow_add₀ two_ne_zero]
        norm_num
        ring
      _ ≤ num / den := (log2Fraction_spec hnum hden).1
  · next hsmall =>
    refine ⟨nofun, ?_⟩
    rintro _ ⟨⟩
    exact ⟨⟨hless, hleast, by dsimp only; omega⟩,
      (abs_multiple_sub_le num hden).trans (half_unit_le hnum hden)⟩

end

theorem rounds_nearest? (negative : Bool) (num : Nat) (hden : 0 < den) :
    Rounds (num / den) (nearest? negative num den) := by
  cases Nat.eq_zero_or_pos num with
  | inl hzero =>
    subst hzero
    refine ⟨nofun, ?_⟩
    rintro _ ⟨⟩
    exact ⟨proper_zero negative, by simp [value_zero]⟩
  | inr hnum =>
    rw [nearest?_eq negative hnum]
    split
    · next hcarry => exact rounds_of_eq negative hnum hden hcarry
    · next hcarry =>
      exact rounds_of_lt negative hnum hden (lt_of_le_of_ne (multiple_le hnum hden) hcarry)

theorem Rounds.exists_eq_some {exact : ℚ} {result : Option Binary64} (h : Rounds exact result)
    (hexact : exact < limit) : ∃ x, result = some x ∧ x.Proper ∧
      |x.value - exact| ≤ max (exact / 2 ^ 53) (1 / 2 ^ 1075) := by
  cases result with
  | none => exact absurd (h.fits rfl) (not_le.mpr hexact)
  | some x => exact ⟨x, rfl, h.near x rfl⟩

theorem value_nonneg (x : Binary64) : 0 ≤ x.value := by
  rw [value]
  positivity

theorem fraction_pos (x : Binary64) : 0 < x.fraction.2 := by
  simp only [fraction, Nat.shiftLeft_eq, one_mul]
  exact Nat.two_pow_pos _

theorem fraction_div (x : Binary64) : (x.fraction.1 : ℚ) / x.fraction.2 = x.value := by
  rw [fraction, cast_shiftLeft, cast_shiftLeft, Nat.cast_one, one_mul, mul_div_assoc,
    ← zpow_eq_div, value]

theorem rounds_ofNat? (n : Nat) : Rounds n (ofNat? n) := by
  have h := rounds_nearest? false n Nat.one_pos
  rwa [Nat.cast_one, div_one] at h

theorem rounds_mul? (x y : Binary64) : Rounds (x.value * y.value) (x.mul? y) := by
  have h := rounds_nearest? (x.negative != y.negative) (x.fraction.1 * y.fraction.1)
    (Nat.mul_pos x.fraction_pos y.fraction_pos)
  rwa [Nat.cast_mul, Nat.cast_mul, mul_div_mul_comm, fraction_div, fraction_div] at h

theorem rounds_div? (x : Binary64) {y : Binary64} (hy : 0 < y.value) :
    Rounds (x.value / y.value) (x.div? y) := by
  have hnum : 0 < y.fraction.1 := by
    refine Nat.pos_of_ne_zero fun hzero => hy.ne' ?_
    rw [← fraction_div, hzero, Nat.cast_zero, zero_div]
  have h := rounds_nearest? (x.negative != y.negative) (x.fraction.1 * y.fraction.2)
    (Nat.mul_pos x.fraction_pos hnum)
  rwa [Nat.cast_mul, Nat.cast_mul, mul_div_mul_comm, ← inv_div (y.fraction.1 : ℚ), fraction_div,
    fraction_div, ← div_eq_mul_inv] at h

end Wireframe.Binary64
