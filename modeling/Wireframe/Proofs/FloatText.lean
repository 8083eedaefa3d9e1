import Wireframe.Proofs.JsonText
import Wireframe.Proofs.Parsing
import Wireframe.Proofs.Scaling
import Wireframe.Proofs.Shortest

namespace Wireframe.Json

open Binary64

theorem ofDigitChars_lt {digits : List Char} (hdigits : ∀ c ∈ digits, c.isDigit = true) (n : Nat) :
    Nat.ofDigitChars 10 digits n < (n + 1) * 10 ^ digits.length := by
  induction digits generalizing n with
  | nil => simp [Nat.ofDigitChars]
  | cons c rest ih =>
    obtain ⟨hc, hrest⟩ := List.forall_mem_cons.mp hdigits
    have hvalue : c.toNat - '0'.toNat ≤ 9 := by
      simp only [Char.isDigit, Bool.and_eq_true, decide_eq_true_eq] at hc
      have hnine : c.toNat ≤ '9'.toNat := UInt32.le_iff_toNat_le.mp hc.2
      have hten : '9'.toNat = '0'.toNat + 9 := rfl
      omega
    rw [Nat.ofDigitChars_cons, List.length_cons, Nat.pow_succ', ← Nat.mul_assoc]
    refine (ih hrest _).trans_le (Nat.mul_le_mul_right _ ?_)
    omega

theorem ofDigitChars_lt_wordBound {digits : List Char} (hdigits : ∀ c ∈ digits, c.isDigit = true)
    (hlength : digits.length ≤ 16) : Nat.ofDigitChars 10 digits 0 < wordBound := by
  calc Nat.ofDigitChars 10 digits 0 < (0 + 1) * 10 ^ digits.length := ofDigitChars_lt hdigits 0
    _ ≤ (0 + 1) * 10 ^ 16 := Nat.mul_le_mul_left _ (Nat.pow_le_pow_right (by decide) hlength)
    _ < wordBound := by rw [wordBound]; decide

theorem le_ofDigitChars_pow (digits : List Char) (n : Nat) :
    n * 10 ^ digits.length ≤ Nat.ofDigitChars 10 digits n := by
  induction digits generalizing n with
  | nil => simp [Nat.ofDigitChars]
  | cons c rest ih =>
    rw [Nat.ofDigitChars_cons, List.length_cons, Nat.pow_succ', ← Nat.mul_assoc]
    exact (Nat.mul_le_mul_right _ (by omega)).trans (ih _)

-- The digits behind the first, with the first counted before them.
theorem ofDigitChars_tail {n : Nat} {c : Char} {digits : List Char}
    (hdigits : Nat.toDigits 10 n = c :: digits) :
    Nat.ofDigitChars 10 digits (Text.asciiValue c) = n := by
  have h := Nat.ofDigitChars_ten_toDigits (n := n)
  rwa [hdigits, Nat.ofDigitChars_cons, Nat.mul_zero, Nat.zero_add] at h

theorem fractionPart_of_lt {digits : List Char} {n count : Nat}
    (hbound : Nat.ofDigitChars 10 digits n < wordBound) :
    fractionPart n count digits = (Nat.ofDigitChars 10 digits n, count + digits.length) := by
  induction digits generalizing n count with
  | nil => rfl
  | cons c rest ih =>
    rw [Nat.ofDigitChars_cons] at hbound ⊢
    have hnext : appendDigit? n c = some (10 * n + Text.asciiValue c) :=
      if_pos (Nat.lt_of_le_of_lt (le_ofDigitChars rest _) hbound)
    rw [fractionPart, hnext]
    dsimp only
    rw [List.length_cons, Nat.add_comm rest.length, ← Nat.add_assoc]
    exact ih hbound

-- What is kept of the digits behind the point is no more than all of them.
theorem fractionPart_le {digits : List Char} {n count m total : Nat}
    (h : fractionPart n count digits = (m, total)) :
    m * 10 ^ (count + digits.length) ≤ Nat.ofDigitChars 10 digits n * 10 ^ total := by
  induction digits generalizing n count with
  | nil =>
    cases h
    exact Nat.le_refl _
  | cons c rest ih =>
    rw [fractionPart] at h
    split at h
    · next next hnext =>
      obtain ⟨-, rfl⟩ := appendDigit?_eq_some hnext
      have hle := ih h
      rw [List.length_cons, Nat.ofDigitChars_cons]
      rwa [Nat.add_right_comm] at hle
    · obtain ⟨rfl, rfl⟩ := Prod.mk.inj h
      rw [Nat.pow_add, Nat.mul_left_comm, Nat.mul_comm _ (10 ^ count)]
      exact Nat.mul_le_mul_left _ (le_ofDigitChars_pow _ n)

section

variable {negative : Bool} {digits tail rest : List Char} {y : Binary64}

theorem unsigned?_of_point (hwhole : Whole digits) {decimals : List Char} {e : Option Int}
    (hdecimals : ∀ c ∈ decimals, c.isDigit = true) (hne : decimals ≠ [])
    (htail : ∀ c ∈ tail.head?, c.isDigit = false) (hexponent : exponentPart? tail = some (e, rest))
    (hfloat : floatOf? negative (fractionPart (wholePart 0 digits).1 0 decimals).1
      ((wholePart 0 digits).2 - (fractionPart (wholePart 0 digits).1 0 decimals).2 + e.getD 0) =
        some y) :
    unsigned? negative (digits ++ '.' :: (decimals ++ tail)) = some (float y, rest) := by
  have htake : (digits ++ '.' :: (decimals ++ tail)).takeWhile Char.isDigit = digits :=
    takeWhile_digits hwhole.isDigit (by rintro _ ⟨⟩; rfl)
  rw [unsigned?, htake, List.drop_left, hwhole.valid]
  have htake' : (decimals ++ tail).takeWhile Char.isDigit = decimals :=
    takeWhile_digits hdecimals htail
  simp only [Bool.false_eq_true, if_false, htake', List.drop_left, List.isEmpty_iff, hne, hexponent,
    Option.bind_eq_bind, Option.bind_some, hfloat, Option.pure_def]

theorem unsigned?_of_exponent (hwhole : Whole digits) {e : Int}
    (hexponent : exponentPart? ('e' :: tail) = some (some e, rest))
    (hfloat : floatOf? negative (wholePart 0 digits).1 ((wholePart 0 digits).2 + e) = some y) :
    unsigned? negative (digits ++ 'e' :: tail) = some (float y, rest) := by
  have htake : (digits ++ 'e' :: tail).takeWhile Char.isDigit = digits :=
    takeWhile_digits hwhole.isDigit (by rintro _ ⟨⟩; rfl)
  rw [unsigned?, htake, List.drop_left, hwhole.valid]
  simp only [Bool.false_eq_true, if_false, hexponent, Option.bind_eq_bind, Option.bind_some, hfloat,
    Option.pure_def]
  rfl

theorem exponentPart?_toDigits (e : Int) (hends : Ends rest) :
    exponentPart? ('e' :: (if e < 0 then '-' else '+') :: (Nat.toDigits 10 e.natAbs ++ rest)) =
      some (some e, rest) := by
  have htake : (Nat.toDigits 10 e.natAbs ++ rest).takeWhile Char.isDigit =
      Nat.toDigits 10 e.natAbs :=
    takeWhile_digits (forall_isDigit_toDigits _) (isDigit_head_of_ends hends)
  have hne : (Nat.toDigits 10 e.natAbs).isEmpty = false := by
    rw [List.isEmpty_eq_false_iff]
    exact Nat.toDigits_ne_nil
  have hvalue : Text.ofDigits (Nat.toDigits 10 e.natAbs) = e.natAbs :=
    Nat.ofDigitChars_ten_toDigits
  by_cases he : e < 0
  · simp [exponentPart?, he, htake, hne, hvalue, abs_of_neg he]
  · simp [exponentPart?, he, htake, hne, hvalue, abs_of_nonneg (not_lt.mp he)]

end

theorem exists_floatOf?_of_nonpos (negative : Bool) {n : Nat} (hn : n < wordBound) {e : Int}
    (he : e ≤ 0) : ∃ y, floatOf? negative n e = some y := by
  rcases he.lt_or_eq with hneg | rfl
  · obtain ⟨y, hy, -⟩ := exists_floatOf?_of_neg negative hn hneg
    exact ⟨y, hy⟩
  · apply exists_floatOf?_of_lt negative (le_refl 0)
    have hbound : (n : ℚ) ≤ 2 ^ 64 := by
      rw [wordBound, UInt64.size] at hn
      exact_mod_cast hn.le
    have hslack : slack ≤ 2 := by norm_num [slack]
    calc n * 10 ^ (0 : Int).toNat * slack ≤ 2 ^ 64 * 1 * 2 := by
          gcongr
          · exact zero_le_one.trans one_le_slack
          · simp
      _ = 2 ^ 65 := by norm_num
      _ < limit := two_pow_lt_limit

-- A text behind a sign that is read as one floating point number, whatever ends it.
def IsFloat (negative : Bool) (text : List Char) : Prop :=
  ∃ y, ∀ {rest : List Char}, Ends rest → unsigned? negative (text ++ rest) = some (float y, rest)

section

variable (negative : Bool) {n : Nat} {leading : Int}

-- Behind a whole number that fits in a word, all digits after the point make the exponent
-- negative.
theorem isFloat_point {digits decimals : List Char} (hwhole : Whole digits)
    (hlength : digits.length ≤ 16) (hdecimals : ∀ c ∈ decimals, c.isDigit = true)
    (hne : decimals ≠ []) : IsFloat negative (digits ++ '.' :: decimals) := by
  have hbound := ofDigitChars_lt_wordBound hwhole.isDigit hlength
  have hread := wholePart_of_lt hbound
  have hkept := fractionPart_lt hbound 0 decimals
  obtain ⟨y, hy⟩ := exists_floatOf?_of_nonpos negative hkept
    (by omega : (0 : Int) - (fractionPart (Nat.ofDigitChars 10 digits 0) 0 decimals).2 + 0 ≤ 0)
  refine ⟨y, fun {rest} hends => ?_⟩
  rw [List.append_assoc, List.cons_append]
  apply unsigned?_of_point hwhole hdecimals hne (isDigit_head_of_ends hends)
    (exponentPart?_of_ends hends)
  rw [hread]
  exact hy

theorem isFloat_positional (hn : 0 < n) (hleast : 0 ≤ leading) (hmost : leading < 16) :
    IsFloat negative (printDecimal (Nat.toDigits 10 n) leading) := by
  obtain ⟨c, digits, hdigits, hc⟩ := exists_toDigits_eq_cons n
  have hall := forall_isDigit_toDigits n
  rw [hdigits] at hall
  have hzero : c ≠ '0' := by
    have := head?_toDigits hn
    rw [hdigits] at this
    simpa using this
  rw [hdigits]
  let padding := List.replicate (leading.toNat + 1 - (c :: digits).length) '0'
  let decimals := if ((c :: digits).drop (leading.toNat + 1)).isEmpty then ['0']
    else (c :: digits).drop (leading.toNat + 1)
  have hwhole : Whole ((c :: digits).take (leading.toNat + 1) ++ padding) := by
    refine ⟨fun d hd => ?_, by simp, by simp [hzero]⟩
    rcases List.mem_append.mp hd with hd | hd
    · exact hall d (List.mem_of_mem_take hd)
    · obtain rfl := List.eq_of_mem_replicate hd
      rfl
  have hdecimals : ∀ d ∈ decimals, d.isDigit = true := by
    intro d hd
    dsimp only [decimals] at hd
    split at hd
    · obtain rfl := List.mem_singleton.mp hd
      rfl
    · exact hall d (List.mem_of_mem_drop hd)
  have hne : decimals ≠ [] := by
    dsimp only [decimals]
    split
    · simp
    · next h => simpa using h
  have hlength : ((c :: digits).take (leading.toNat + 1) ++ padding).length ≤ 16 := by
    simp only [padding, List.length_append, List.length_take, List.length_replicate]
    omega
  have hprint : printDecimal (c :: digits) leading =
      ((c :: digits).take (leading.toNat + 1) ++ padding) ++ '.' :: decimals := by
    simp [printDecimal, hleast, hmost, padding, decimals]
  rw [hprint]
  exact isFloat_point negative hwhole hlength hdecimals hne

theorem isFloat_small (hleast : -5 ≤ leading) (hmost : leading < 0) :
    IsFloat negative (printDecimal (Nat.toDigits 10 n) leading) := by
  have hwhole : Whole ['0'] := ⟨by simp, by simp, by simp⟩
  have hdecimals : ∀ d ∈ List.replicate ((-leading).toNat - 1) '0' ++ Nat.toDigits 10 n,
      d.isDigit = true := by
    intro d hd
    rcases List.mem_append.mp hd with hd | hd
    · obtain rfl := List.eq_of_mem_replicate hd
      rfl
    · exact forall_isDigit_toDigits n d hd
  have hprint : printDecimal (Nat.toDigits 10 n) leading =
      ['0'] ++ '.' :: (List.replicate ((-leading).toNat - 1) '0' ++ Nat.toDigits 10 n) := by
    simp [printDecimal, hleast, hmost, not_le.mpr hmost]
  rw [hprint]
  exact isFloat_point negative hwhole (by decide) hdecimals (by simp [Nat.toDigits_ne_nil])

-- The digit before the point and those behind it that are kept, with the exponent that is left.
theorem isFloat_scientific {c : Char} {digits : List Char}
    (hdigits : ∀ d ∈ c :: digits, d.isDigit = true) (hsize : leading < -5 ∨ 16 ≤ leading)
    (hfloat : ∃ y, floatOf? negative (fractionPart (Text.asciiValue c) 0 digits).1
      (leading - (fractionPart (Text.asciiValue c) 0 digits).2) = some y) :
    IsFloat negative (printDecimal (c :: digits) leading) := by
  obtain ⟨hc, hrest⟩ := List.forall_mem_cons.mp hdigits
  have hwhole : Whole [c] := ⟨by simpa using hc, by simp, by simp⟩
  have hvalue : Nat.ofDigitChars 10 [c] 0 = Text.asciiValue c := Nat.zero_add _
  have hread : wholePart 0 [c] = (Text.asciiValue c, 0) := by
    rw [wholePart_of_lt (ofDigitChars_lt_wordBound hwhole.isDigit (by simp)), hvalue]
  have hform : printDecimal (c :: digits) leading =
      c :: ((if digits.isEmpty then [] else '.' :: digits) ++ 'e' ::
        (if leading < 0 then '-' else '+') :: Nat.toDigits 10 leading.natAbs) := by
    rw [printDecimal, if_neg (by simp; omega), if_neg (by simp; omega)]
    split <;> simp
  obtain ⟨y, hfloat⟩ := hfloat
  refine ⟨y, fun {rest} hends => ?_⟩
  have hexponent := exponentPart?_toDigits leading hends
  cases digits with
  | nil =>
    have hprint : printDecimal [c] leading ++ rest = [c] ++ 'e' ::
        (if leading < 0 then '-' else '+') :: (Nat.toDigits 10 leading.natAbs ++ rest) := by
      simp [hform]
    rw [hprint]
    refine unsigned?_of_exponent hwhole hexponent ?_
    rw [hread, ← hfloat]
    simp [fractionPart]
  | cons d digits =>
    have hprint : printDecimal (c :: d :: digits) leading ++ rest = [c] ++ '.' ::
        (d :: digits ++ 'e' :: (if leading < 0 then '-' else '+') ::
          (Nat.toDigits 10 leading.natAbs ++ rest)) := by
      simp [hform]
    rw [hprint]
    refine unsigned?_of_point hwhole hrest (by simp) (by rintro _ ⟨⟩; rfl) hexponent ?_
    rw [hread, ← hfloat]
    congr 1
    dsimp only [Option.getD_some]
    omega

-- Digits that fit in a word are all kept.
theorem isFloat_word (hn : n < wordBound) (hsize : leading < -5 ∨ 16 ≤ leading)
    (hfloat : (floatOf? negative n (leading - (Nat.toDigits 10 n).length + 1)).isSome) :
    IsFloat negative (printDecimal (Nat.toDigits 10 n) leading) := by
  obtain ⟨c, digits, hdigits, -⟩ := exists_toDigits_eq_cons n
  have hall := forall_isDigit_toDigits n
  rw [hdigits] at hall
  have hvalue := ofDigitChars_tail hdigits
  obtain ⟨y, hy⟩ := Option.isSome_iff_exists.mp hfloat
  rw [hdigits] at hy ⊢
  refine isFloat_scientific negative hall hsize ⟨y, ?_⟩
  rw [fractionPart_of_lt (by rwa [hvalue]), hvalue, ← hy]
  congr 1
  dsimp only
  rw [List.length_cons]
  omega

theorem isFloat_of_lt_limit (hsize : leading < -5 ∨ 16 ≤ leading)
    (hfits : n * 10 ^ (leading - (Nat.toDigits 10 n).length + 1) * slack < limit) :
    IsFloat negative (printDecimal (Nat.toDigits 10 n) leading) := by
  obtain ⟨c, digits, hdigits, hc⟩ := exists_toDigits_eq_cons n
  have hall := forall_isDigit_toDigits n
  rw [hdigits] at hall
  have hvalue := ofDigitChars_tail hdigits
  have hword : Text.asciiValue c < wordBound := by
    have hdigit : ∀ d ∈ [c], d.isDigit = true := by simpa using hc
    have h := ofDigitChars_lt_wordBound hdigit (by simp)
    rwa [Nat.ofDigitChars_cons, Nat.mul_zero, Nat.zero_add] at h
  rw [hdigits] at hfits ⊢
  apply isFloat_scientific negative hall hsize
  generalize hpart : fractionPart (Text.asciiValue c) 0 digits = part
  obtain ⟨m, total⟩ := part
  have hm := fractionPart_lt hword 0 digits
  have hle := fractionPart_le hpart
  rw [hpart] at hm
  rw [hvalue, Nat.zero_add] at hle
  by_cases hexp : leading - total ≤ 0
  · exact exists_floatOf?_of_nonpos negative hm hexp
  · apply exists_floatOf?_of_lt negative (by dsimp only; omega)
    refine lt_of_le_of_lt (mul_le_mul_of_nonneg_right ?_ (zero_le_one.trans one_le_slack)) hfits
    have hleQ : (m : ℚ) * 10 ^ digits.length ≤ n * 10 ^ total := by exact_mod_cast hle
    have hten : (10 : ℚ) ≠ 0 := by norm_num
    calc (m : ℚ) * 10 ^ (leading - total).toNat
        = m * 10 ^ digits.length * 10 ^ (leading - total - digits.length) := by
          rw [mul_assoc, ← zpow_natCast 10 digits.length, ← zpow_add₀ hten, ← zpow_natCast 10]
          congr 2
          omega
      _ ≤ n * 10 ^ total * 10 ^ (leading - total - digits.length) := by gcongr
      _ = n * 10 ^ (leading - (c :: digits).length + 1) := by
          rw [mul_assoc, ← zpow_natCast 10 total, ← zpow_add₀ hten, List.length_cons]
          congr 2
          omega

end

-- The three largest numbers, where the reader comes closest to the limit.
theorem shortest_top : ∀ (negative : Bool), ∀ k < 3,
    shortest ⟨negative, 2 ^ 53 - 1 - k, 971⟩ = ⟨17976931348623157 - 2 * k, 292⟩ := by
  intro negative k hk
  have hfound : ∀ (negative : Bool), ∀ k < 3, ((List.range 17).findSome? fun n =>
      onGrid? ⟨negative, 2 ^ 53 - 1 - k, 971⟩
        (scale ⟨negative, 2 ^ 53 - 1 - k, 971⟩ - (n + 1 : Nat))) =
          some ⟨17976931348623157 - 2 * k, 292⟩ := by decide +kernel
  have hlast : ∀ k < 3, (17976931348623157 - 2 * k) % 10 ≠ 0 := by decide
  rw [shortest, hfound negative k hk, Option.getD_some, Decimal.strip, dif_pos (.inr (hlast k hk))]

theorem isSome_floatOf?_top : ∀ (negative : Bool), ∀ k < 3,
    (floatOf? negative (17976931348623157 - 2 * k) 292).isSome := by decide +kernel

section

variable {x : Binary64}

-- Below these three the limit stays out of reach.
theorem value_shortest_lt (hproper : x.Proper) (hx : 0 < x.significand)
    (htop : x.exponent = 971 → x.significand + 3 < 2 ^ 53) : x.shortest.value * slack < limit := by
  have hvalue := (reached_shortest hx).value_le
  have hbound : ((x.significand : ℚ) + 1 / 2) * 2 ^ x.exponent ≤
      (2 ^ 53 - 7 / 2) * 2 ^ (971 : ℤ) := by
    rcases hproper.most.lt_or_eq with hless | htopmost
    · have hsignificand : (x.significand : ℚ) + 1 ≤ 2 ^ 53 := by exact_mod_cast hproper.significand
      have hpower : (2 : ℚ) ^ x.exponent ≤ 2 ^ (970 : ℤ) :=
        zpow_le_zpow_right₀ one_le_two (by omega)
      calc ((x.significand : ℚ) + 1 / 2) * 2 ^ x.exponent ≤ 2 ^ 53 * 2 ^ (970 : ℤ) := by
            gcongr
            linarith
        _ ≤ (2 * (2 ^ 53 - 7 / 2)) * 2 ^ (970 : ℤ) := by
            gcongr
            norm_num
        _ = (2 ^ 53 - 7 / 2) * 2 ^ (971 : ℤ) := by
            rw [show (971 : ℤ) = 970 + 1 from rfl, zpow_add_one₀ two_ne_zero]
            ring
    · have hsignificand : (x.significand : ℚ) + 4 ≤ 2 ^ 53 := by exact_mod_cast htop htopmost
      rw [htopmost]
      gcongr
      linarith
  calc x.shortest.value * slack ≤ (2 ^ 53 - 7 / 2) * 2 ^ (971 : ℤ) * slack :=
        mul_le_mul_of_nonneg_right (hvalue.trans hbound) (zero_le_one.trans one_le_slack)
    _ = (2 ^ 53 - 7 / 2) * slack * 2 ^ (971 : ℤ) := by ring
    _ < limit := by
        rw [limit]
        gcongr
        norm_num [slack]

theorem leading_sub_length (d : Decimal) :
    d.leading - (Nat.toDigits 10 d.digits).length + 1 = d.exponent := by
  rw [Decimal.leading, Decimal.size]
  omega

theorem isFloat_shortest (negative : Bool) (hproper : x.Proper) (hx : 0 < x.significand) :
    IsFloat negative (printDecimal (Nat.toDigits 10 x.shortest.digits) x.shortest.leading) := by
  by_cases hpositional : 0 ≤ x.shortest.leading ∧ x.shortest.leading < 16
  · exact isFloat_positional negative (reached_shortest hx).digits_pos hpositional.1 hpositional.2
  by_cases hsmall : -5 ≤ x.shortest.leading ∧ x.shortest.leading < 0
  · exact isFloat_small negative hsmall.1 hsmall.2
  have hsize : x.shortest.leading < -5 ∨ 16 ≤ x.shortest.leading := by omega
  by_cases htop : x.exponent = 971 → x.significand + 3 < 2 ^ 53
  · apply isFloat_of_lt_limit negative hsize
    rw [leading_sub_length]
    exact value_shortest_lt hproper hx htop
  · obtain ⟨sign, significand, exponent⟩ := x
    obtain ⟨hexponent, hlarge⟩ := Classical.not_imp.mp htop
    have hless := hproper.significand
    dsimp only at hexponent hlarge hless
    obtain ⟨k, hk, rfl⟩ : ∃ k < 3, significand = 2 ^ 53 - 1 - k :=
      ⟨2 ^ 53 - 1 - significand, by omega, by omega⟩
    subst hexponent
    rw [shortest_top sign k hk] at hsize ⊢
    have hbound : 17976931348623157 - 2 * k < wordBound :=
      (Nat.sub_le _ _).trans_lt (by rw [wordBound]; decide)
    apply isFloat_word negative hbound hsize
    rw [leading_sub_length]
    exact isSome_floatOf?_top negative k hk

-- What is written for a number is read as a number, behind its sign.
theorem exists_number?_printFloat (hproper : x.Proper) :
    ∃ y, ∀ {rest : List Char}, Ends rest →
      number? (printFloat x ++ rest) = some (float y, rest) := by
  have hunsigned : ∃ c digits, (if x.isZero then ['0', '.', '0']
      else printDecimal (Nat.toDigits 10 x.shortest.digits) x.shortest.leading) = c :: digits ∧
        c.isDigit = true ∧ IsFloat x.negative (c :: digits) := by
    split
    · have hwhole : Whole ['0'] := ⟨by simp, by simp, by simp⟩
      exact ⟨_, _, rfl, rfl, isFloat_point x.negative hwhole (by decide)
        (by simp : ∀ c ∈ ['0'], c.isDigit = true) (by simp)⟩
    · next hzero =>
      have hx : 0 < x.significand := Nat.pos_of_ne_zero (by simpa [isZero] using hzero)
      have hfloat := isFloat_shortest x.negative hproper hx
      obtain ⟨c, digits, hdigits, hc⟩ := exists_toDigits_eq_cons x.shortest.digits
      rw [hdigits] at hfloat ⊢
      obtain ⟨d, more, hprint, hd⟩ := exists_printDecimal_eq_cons hc x.shortest.leading
      rw [hprint] at hfloat ⊢
      exact ⟨d, more, rfl, hd, hfloat⟩
  obtain ⟨c, digits, hprint, hc, y, hy⟩ := hunsigned
  refine ⟨y, fun {rest} hends => ?_⟩
  have hread := hy hends
  rw [printFloat, hprint]
  cases hnegative : x.negative with
  | true =>
    rw [hnegative] at hread
    exact hread
  | false =>
    rw [hnegative] at hread
    rw [if_neg Bool.false_ne_true, List.nil_append, List.cons_append, number?_of_ne_minus]
    · exact hread
    · rintro rfl
      contradiction

end

end Wireframe.Json
