import Wireframe.Binary64.Digits
import Wireframe.Proofs.Rounding

namespace Wireframe

namespace Decimal

def value (d : Decimal) : ℚ := d.digits * 10 ^ d.exponent

theorem value_strip (d : Decimal) : d.strip.value = d.value := by
  fun_induction strip d with
  | case1 d h => rfl
  | case2 d h ih =>
    rw [not_or, not_not] at h
    have hdigits : (d.digits : ℚ) = (d.digits / 10 : Nat) * 10 := by
      exact_mod_cast (Nat.div_mul_cancel (Nat.dvd_of_mod_eq_zero h.2)).symm
    rw [ih, value, value, hdigits, zpow_add_one₀ (by norm_num)]
    ring

theorem digits_pos_strip {d : Decimal} (hpos : 0 < d.digits) : 0 < d.strip.digits := by
  fun_induction strip d with
  | case1 d h => exact hpos
  | case2 d h ih =>
    apply ih
    dsimp only
    omega

end Decimal

namespace Binary64

variable {x : Binary64} {d : Decimal}

-- The comparison multiplies both sides by the same powers.
theorem compareQuarters_ne_gt_iff (x : Binary64) (d : Decimal) (quarters : Nat) :
    x.compareQuarters d quarters ≠ .gt ↔ 4 * d.value ≤ quarters * 2 ^ x.exponent := by
  have hfactor : (0 : ℚ) < 10 ^ (-d.exponent).toNat * 2 ^ (-x.exponent).toNat := by positivity
  have hleft : (((4 * d.digits * Nat.pow 10 d.exponent.toNat) <<< (-x.exponent).toNat : Nat) : ℚ) =
      4 * d.value * (10 ^ (-d.exponent).toNat * 2 ^ (-x.exponent).toNat) := by
    rw [cast_shiftLeft, Decimal.value, zpow_eq_div 10 d.exponent, Nat.pow_eq]
    push_cast
    field_simp
  have hright : (((quarters * Nat.pow 10 (-d.exponent).toNat) <<< x.exponent.toNat : Nat) : ℚ) =
      quarters * 2 ^ x.exponent * (10 ^ (-d.exponent).toNat * 2 ^ (-x.exponent).toNat) := by
    rw [cast_shiftLeft, zpow_eq_div 2 x.exponent, Nat.pow_eq]
    push_cast
    field_simp
  rw [compareQuarters, compare_le_iff_le, ← Nat.cast_le (α := ℚ), hleft, hright,
    mul_le_mul_iff_left₀ hfactor]

-- What lies in the interval of a number is not beyond its upper end.
theorem value_le_of_identifiedBy (h : x.identifiedBy d = true) :
    d.value ≤ (x.significand + 1 / 2) * 2 ^ x.exponent := by
  have hhigh : x.compareQuarters d x.ends.2 ≠ .gt := by
    intro hgt
    simp [identifiedBy, hgt] at h
  have hquarters := (compareQuarters_ne_gt_iff x d _).mp hhigh
  simp only [ends] at hquarters
  push_cast at hquarters
  linarith

-- Zero lies in the interval of no other number.
theorem digits_pos_of_identifiedBy (hx : 0 < x.significand) (h : x.identifiedBy d = true) :
    0 < d.digits := by
  refine Nat.pos_of_ne_zero fun hzero => ?_
  have hends : 0 < x.ends.1 := by
    simp only [ends]
    split <;> omega
  have hlow : x.compareQuarters d x.ends.1 = .lt := by
    rw [compareQuarters, compare_lt_iff_lt, hzero, Nat.mul_zero, Nat.zero_mul, Nat.zero_shiftLeft,
      Nat.shiftLeft_eq]
    exact Nat.mul_pos (Nat.mul_pos hends (Nat.pow_pos (by decide))) (Nat.two_pow_pos _)
  simp [identifiedBy, hlow] at h

-- A decimal that can be written for the number.
structure Reached (x : Binary64) (d : Decimal) : Prop where
  digits_pos : 0 < d.digits
  value_le : d.value ≤ (x.significand + 1 / 2) * 2 ^ x.exponent

theorem reached_of_identifiedBy (hx : 0 < x.significand) (h : x.identifiedBy d = true) :
    x.Reached d :=
  ⟨digits_pos_of_identifiedBy hx h, value_le_of_identifiedBy h⟩

theorem div_le_roundDiv (num den : Nat) : num / den ≤ roundDiv num den := by
  rw [roundDiv]
  split <;> omega

theorem roundDiv_le (num den : Nat) : roundDiv num den ≤ num / den + 1 := by
  rw [roundDiv]
  split <;> omega

-- The nearer of two neighbours that identify the number lies between them.
theorem reached_of_between (hx : 0 < x.significand) {below digits : Nat} {place : Int}
    (hbelow : x.identifiedBy ⟨below, place⟩ = true)
    (habove : x.identifiedBy ⟨below + 1, place⟩ = true)
    (hleast : below ≤ digits) (hmost : digits ≤ below + 1) : x.Reached ⟨digits, place⟩ where
  digits_pos := (digits_pos_of_identifiedBy hx hbelow).trans_le hleast
  value_le := by
    refine le_trans ?_ (value_le_of_identifiedBy habove)
    have hcast : (digits : ℚ) ≤ (below + 1 : Nat) := by exact_mod_cast hmost
    exact mul_le_mul_of_nonneg_right hcast (by positivity)

theorem reached_of_onGrid? (hx : 0 < x.significand) {place : Int} (h : x.onGrid? place = some d) :
    x.Reached d := by
  simp only [onGrid?] at h
  split at h
  · next hbelow habove =>
    cases h
    exact reached_of_between hx hbelow habove (div_le_roundDiv _ _) (roundDiv_le _ _)
  · next hbelow _ =>
    cases h
    exact reached_of_identifiedBy hx hbelow
  · next _ habove =>
    cases h
    exact reached_of_identifiedBy hx habove
  · cases h

-- The value itself, written out.
theorem reached_exact (hx : 0 < x.significand) :
    x.Reached ⟨(x.significand * Nat.pow 5 (-x.exponent).toNat) <<< x.exponent.toNat,
      min x.exponent 0⟩ where
  digits_pos := by
    rw [Nat.shiftLeft_eq]
    exact Nat.mul_pos (Nat.mul_pos hx (Nat.pow_pos (by decide))) (Nat.two_pow_pos _)
  value_le := by
    have hvalue : Decimal.value ⟨(x.significand * Nat.pow 5 (-x.exponent).toNat) <<<
        x.exponent.toNat, min x.exponent 0⟩ = x.significand * 2 ^ x.exponent := by
      have hten : (10 : ℚ) ^ (min x.exponent 0) = 1 / 10 ^ (-x.exponent).toNat := by
        rw [zpow_eq_div]
        congr 2
        · rw [show (min x.exponent 0).toNat = 0 by omega, pow_zero]
        · omega
      rw [Decimal.value, cast_shiftLeft, hten, zpow_eq_div 2 x.exponent, Nat.pow_eq]
      push_cast
      rw [show (10 : ℚ) = 5 * 2 by norm_num, mul_pow]
      field_simp
    rw [hvalue]
    gcongr
    linarith

theorem Reached.strip (h : x.Reached d) : x.Reached d.strip :=
  ⟨Decimal.digits_pos_strip h.digits_pos, (Decimal.value_strip d).trans_le h.value_le⟩

theorem reached_shortest (hx : 0 < x.significand) : x.Reached x.shortest := by
  rw [shortest]
  apply Reached.strip
  cases hfound : (List.range 17).findSome? fun n => x.onGrid? (x.scale - (n + 1 : Nat)) with
  | none => exact reached_exact hx
  | some d =>
    obtain ⟨n, -, hd⟩ := List.exists_of_findSome?_eq_some hfound
    exact reached_of_onGrid? hx hd

end Binary64

end Wireframe
