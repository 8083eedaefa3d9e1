import Wireframe.Json.Parser
import Wireframe.Proofs.Rounding

namespace Wireframe

namespace Binary64

theorem limit_eq : limit = ((2 ^ 54 - 1) * 2 ^ 970 : Nat) := by
  rw [limit, show (971 : ℤ) = (970 : Nat) + 1 from rfl, zpow_add_one₀ two_ne_zero, zpow_natCast,
    Nat.cast_mul, Nat.cast_pow 2 970, Nat.cast_ofNat]
  generalize (2 : ℚ) ^ 970 = unit
  norm_num
  ring

theorem two_pow_lt_limit : (2 : ℚ) ^ 65 < limit := by
  have h : ((2 ^ 65 : Nat) : ℚ) < limit := by
    rw [limit_eq]
    exact Nat.cast_lt.mpr (by decide +kernel)
  rwa [Nat.cast_pow, Nat.cast_ofNat] at h

theorem ten_pow_lt_limit {k : Nat} (hk : k ≤ 308) : (10 : ℚ) ^ k < limit := by
  have hmost : ((10 ^ 308 : Nat) : ℚ) < limit := by
    rw [limit_eq]
    exact Nat.cast_lt.mpr (by decide +kernel)
  rw [Nat.cast_pow, Nat.cast_ofNat] at hmost
  exact (pow_le_pow_right₀ (by norm_num) hk).trans_lt hmost

theorem le_of_ten_pow_lt_limit {k : Nat} (hk : (10 : ℚ) ^ k < limit) : k ≤ 308 := by
  by_contra hmore
  have hover : limit < ((10 ^ 309 : Nat) : ℚ) := by
    rw [limit_eq]
    exact Nat.cast_lt.mpr (by decide +kernel)
  rw [Nat.cast_pow, Nat.cast_ofNat] at hover
  have hpower : (10 : ℚ) ^ 309 ≤ 10 ^ k := pow_le_pow_right₀ (by norm_num) (not_le.mp hmore)
  exact lt_irrefl _ ((hover.trans_le hpower).trans hk)

section

variable {exact : ℚ} {result : Option Binary64}

-- Unless the result is small, the rounding is off by a small part of it.
theorem Rounds.exists_of_one_le (h : Rounds exact result) (hone : 1 ≤ exact)
    (hlimit : exact < limit) :
    ∃ x, result = some x ∧ x.Proper ∧ |x.value - exact| ≤ exact / 2 ^ 53 := by
  obtain ⟨x, hx, hproper, hnear⟩ := h.exists_eq_some hlimit
  refine ⟨x, hx, hproper, hnear.trans (max_le le_rfl ?_)⟩
  have hpower : (2 : ℚ) ^ 53 ≤ 2 ^ 1075 := pow_le_pow_right₀ one_le_two (by decide)
  gcongr

theorem Rounds.exists_le (h : Rounds exact result) (hpos : 0 ≤ exact) (hlimit : exact < limit) :
    ∃ x, result = some x ∧ x.Proper ∧ x.value ≤ 2 * exact + 1 := by
  obtain ⟨x, hx, hproper, hnear⟩ := h.exists_eq_some hlimit
  refine ⟨x, hx, hproper, ?_⟩
  have hpart : exact / 2 ^ 53 ≤ exact := div_le_self hpos (one_le_pow₀ one_le_two)
  have hleast : (1 : ℚ) / 2 ^ 1075 ≤ 1 := div_le_self zero_le_one (one_le_pow₀ one_le_two)
  have hsum : max (exact / 2 ^ 53) (1 / 2 ^ 1075) ≤ exact + 1 :=
    max_le (hpart.trans (by simp)) (hleast.trans (by simpa using hpos))
  have hclose := (abs_le.mp (hnear.trans hsum)).2
  linarith only [hclose]

end

-- A power of ten that is rounded is off by a small part of it.
theorem exists_ofNat?_pow {k : Nat} (hk : k ≤ 308) :
    ∃ p, ofNat? (Nat.pow 10 k) = some p ∧ p.Proper ∧ |p.value - 10 ^ k| ≤ 10 ^ k / 2 ^ 53 := by
  have h := rounds_ofNat? (Nat.pow 10 k)
  rw [Nat.pow_eq, Nat.cast_pow, Nat.cast_ofNat] at h
  exact h.exists_of_one_le (one_le_pow₀ (by norm_num)) (ten_pow_lt_limit hk)

end Binary64

namespace Json

open Binary64

-- A quotient by a power of ten stays below the bound of the dividend.
theorem exists_div? {x p : Binary64} (hvalue : x.value ≤ 2 ^ 65) {k : Nat} (hk : 0 < k)
    (hp : |p.value - 10 ^ k| ≤ 10 ^ k / 2 ^ 53) :
    ∃ y, x.div? p = some y ∧ y.Proper ∧ y.value ≤ 2 ^ 65 := by
  have hten : (10 : ℚ) ≤ 10 ^ k := le_self_pow₀ (by norm_num) hk.ne'
  have hfour : 4 ≤ p.value := by
    have := (abs_le.mp hp).1
    have : (10 : ℚ) ^ k / 2 ^ 53 ≤ 10 ^ k / 2 := by gcongr; norm_num
    linarith
  have hquotient : x.value / p.value ≤ 2 ^ 63 := by
    rw [div_le_iff₀ (by linarith)]
    calc x.value ≤ 2 ^ 63 * 4 := by linarith
      _ ≤ 2 ^ 63 * p.value := by gcongr
  have hnonneg : 0 ≤ x.value / p.value := div_nonneg x.value_nonneg p.value_nonneg
  obtain ⟨y, hy, hproper, hle⟩ := (rounds_div? x (by linarith)).exists_le hnonneg
    (lt_of_le_of_lt (by linarith) two_pow_lt_limit)
  exact ⟨y, hy, hproper, by linarith⟩

theorem exists_divideMost? {x : Binary64} (hproper : x.Proper) (hvalue : x.value ≤ 2 ^ 65)
    (times : Nat) : ∃ y, divideMost? x times = some y ∧ y.Proper ∧ y.value ≤ 2 ^ 65 := by
  induction times generalizing x with
  | zero => exact ⟨x, rfl, hproper, hvalue⟩
  | succ times ih =>
    rw [divideMost?]
    split
    · exact ⟨x, rfl, hproper, hvalue⟩
    · obtain ⟨p, hp, -, hnear⟩ := exists_ofNat?_pow (Nat.le_refl mostPower)
      obtain ⟨y, hy, hyproper, hyvalue⟩ := exists_div? hvalue (by decide) hnear
      obtain ⟨z, hz⟩ := ih hyproper hyvalue
      exact ⟨z, by rw [hp, Option.bind_eq_bind, Option.bind_some, hy]; exact hz.1, hz.2⟩

theorem exists_scaleDown? {x : Binary64} (hproper : x.Proper) (hvalue : x.value ≤ 2 ^ 65) {k : Nat}
    (hk : 0 < k) : ∃ y, scaleDown? x k = some y ∧ y.Proper := by
  obtain ⟨y, hy, -, hyvalue⟩ := exists_divideMost? hproper hvalue ((k - 1) / mostPower)
  obtain ⟨p, hp, -, hnear⟩ := exists_ofNat?_pow
    (by rw [mostPower]; omega : k - mostPower * ((k - 1) / mostPower) ≤ 308)
  obtain ⟨z, hz, hzproper, -⟩ := exists_div? hyvalue
    (by rw [mostPower]; omega : 0 < k - mostPower * ((k - 1) / mostPower)) hnear
  refine ⟨z, ?_, hzproper⟩
  rw [scaleDown?]
  simp only [Option.bind_eq_bind, hy, Option.bind_some, hp, hz]

theorem proper_of_scaleUp? {x y : Binary64} (hproper : x.Proper) {k : Nat}
    (h : scaleUp? x k = some y) : y.Proper := by
  rw [scaleUp?] at h
  split at h
  · cases h
    exact hproper
  · split at h
    · cases h
    · obtain ⟨p, -, hy⟩ := Option.bind_eq_some_iff.mp h
      exact ((rounds_mul? x p).near y hy).1

-- What two roundings can add to a product, as a factor.
def slack : ℚ := (1 + 1 / 2 ^ 53) ^ 2

theorem one_le_slack : 1 ≤ slack := by norm_num [slack]

theorem exists_ofNat? {n : Nat} (hlimit : (n : ℚ) < limit) :
    ∃ x, ofNat? n = some x ∧ x.value ≤ n * (1 + 1 / 2 ^ 53) := by
  cases Nat.eq_zero_or_pos n with
  | inl hzero =>
    subst hzero
    exact ⟨zero false, rfl, by simp [value_zero]⟩
  | inr hpos =>
    obtain ⟨x, hx, -, hnear⟩ :=
      (rounds_ofNat? n).exists_of_one_le (by exact_mod_cast hpos) hlimit
    have hclose := (abs_le.mp hnear).2
    exact ⟨x, hx, by linarith only [hclose]⟩

theorem exists_scaleUp? {x : Binary64} {n k : Nat} (hx : x.value ≤ n * (1 + 1 / 2 ^ 53))
    (hfits : n * 10 ^ k * slack < limit) : ∃ y, scaleUp? x k = some y := by
  rw [scaleUp?]
  split
  · exact ⟨x, rfl⟩
  · next hzero =>
    have hvalue : 0 < x.value := by
      have hsignificand : x.significand ≠ 0 := by simpa [isZero] using hzero
      rw [value]
      positivity
    have hn : 1 ≤ n := by
      refine Nat.pos_of_ne_zero fun hn => ?_
      rw [hn, Nat.cast_zero, zero_mul] at hx
      exact absurd hvalue (not_lt.mpr hx)
    have hnQ : (1 : ℚ) ≤ n := by exact_mod_cast hn
    have hproduct : (10 : ℚ) ^ k ≤ n * 10 ^ k * slack := by
      calc (10 : ℚ) ^ k = 1 * 10 ^ k * 1 := by ring
        _ ≤ n * 10 ^ k * slack := by gcongr; exact one_le_slack
    have hk := le_of_ten_pow_lt_limit (hproduct.trans_lt hfits)
    obtain ⟨p, hp, -, hnear⟩ := exists_ofNat?_pow hk
    have hpower : p.value ≤ 10 ^ k * (1 + 1 / 2 ^ 53) := by
      have := (abs_le.mp hnear).2
      linarith
    have hscaled : x.value * p.value ≤ n * 10 ^ k * slack := by
      calc x.value * p.value ≤ n * (1 + 1 / 2 ^ 53) * (10 ^ k * (1 + 1 / 2 ^ 53)) :=
            mul_le_mul hx hpower p.value_nonneg (by positivity)
        _ = n * 10 ^ k * slack := by rw [slack]; ring
    obtain ⟨y, hy, -⟩ := (rounds_mul? x p).exists_eq_some (hscaled.trans_lt hfits)
    have hmost : ¬ mostPower < k := not_lt.mpr hk
    exact ⟨y, by rw [if_neg hmost, hp]; exact hy⟩

section

variable (negative : Bool) {n : Nat}

theorem exists_floatOf?_of_neg (hn : n < wordBound) {e : Int} (he : e < 0) :
    ∃ y, floatOf? negative n e = some y ∧ y.Proper := by
  have hbound : (n : ℚ) + 1 ≤ 2 ^ 64 := by
    rw [wordBound, UInt64.size] at hn
    exact_mod_cast hn
  obtain ⟨x, hx, hproper, hvalue⟩ := (rounds_ofNat? n).exists_le (Nat.cast_nonneg n)
    (lt_of_le_of_lt (by linarith) two_pow_lt_limit)
  obtain ⟨y, hy, hyproper⟩ := exists_scaleDown? hproper (by linarith)
    (by omega : 0 < e.natAbs)
  refine ⟨{ y with negative }, ?_, hyproper.1, hyproper.2, hyproper.3⟩
  simp [floatOf?, hx, he, hy]

theorem exists_floatOf?_of_lt {e : Int} (he : 0 ≤ e)
    (hfits : n * 10 ^ e.toNat * slack < limit) : ∃ y, floatOf? negative n e = some y := by
  have hfactor : (1 : ℚ) ≤ 10 ^ e.toNat * slack :=
    one_le_mul_of_one_le_of_one_le (one_le_pow₀ (by norm_num)) one_le_slack
  have hlimit : (n : ℚ) < limit := by
    calc (n : ℚ) ≤ n * (10 ^ e.toNat * slack) := le_mul_of_one_le_right (Nat.cast_nonneg n) hfactor
      _ = n * 10 ^ e.toNat * slack := (mul_assoc _ _ _).symm
      _ < limit := hfits
  obtain ⟨x, hx, hvalue⟩ := exists_ofNat? hlimit
  obtain ⟨y, hy⟩ := exists_scaleUp? hvalue hfits
  have hnat : e.natAbs = e.toNat := by omega
  exact ⟨{ y with negative }, by simp [floatOf?, hx, not_lt.mpr he, hnat, hy]⟩

theorem proper_of_floatOf? (hn : n < wordBound) {e : Int} {y : Binary64}
    (h : floatOf? negative n e = some y) : y.Proper := by
  by_cases he : e < 0
  · obtain ⟨z, hz, hproper⟩ := exists_floatOf?_of_neg negative hn he
    obtain rfl := Option.some.inj (h.symm.trans hz)
    exact hproper
  · simp only [floatOf?, Option.bind_eq_bind, Option.pure_def, if_neg he] at h
    obtain ⟨x, hx, h⟩ := Option.bind_eq_some_iff.mp h
    obtain ⟨z, hz, ⟨⟩⟩ := Option.bind_eq_some_iff.mp h
    have hproper := proper_of_scaleUp? ((rounds_ofNat? n).near x hx).1 hz
    exact ⟨hproper.1, hproper.2, hproper.3⟩

end

end Json

end Wireframe
