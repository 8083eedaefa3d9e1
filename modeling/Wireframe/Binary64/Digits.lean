import Wireframe.Binary64.Basic

namespace Wireframe

-- The decimal digits * 10 ^ exponent.
structure Decimal where
  digits : Nat
  exponent : Int
  deriving DecidableEq, Repr

namespace Decimal

-- How many digits there are, and the power of ten that the leading one counts.
def size (d : Decimal) : Nat := (Nat.toDigits 10 d.digits).length

def leading (d : Decimal) : Int := d.exponent + d.size - 1

-- The same value without zeros at the end of the digits.
def strip (d : Decimal) : Decimal :=
  if h : d.digits = 0 ∨ d.digits % 10 ≠ 0 then d
  else Decimal.strip ⟨d.digits / 10, d.exponent + 1⟩
termination_by d.digits
decreasing_by
  have : 0 < d.digits := by omega
  exact Nat.div_lt_self this (by omega)

end Decimal

namespace Binary64

-- Four times the ends of the interval of reals that are rounded to the number, in units of its last
-- place. Below a power of two numbers lie closer together, so the lower end is nearer there.
def ends (x : Binary64) : Nat × Nat :=
  let narrow := x.significand == 1 <<< 52 && x.exponent != -1074
  (if narrow then 4 * x.significand - 1 else 4 * x.significand - 2, 4 * x.significand + 2)

-- Compares a decimal with a quarter of `quarters` units of the number's last place.
def compareQuarters (x : Binary64) (d : Decimal) (quarters : Nat) : Ordering :=
  compare
    ((4 * d.digits * Nat.pow 10 d.exponent.toNat) <<< (-x.exponent).toNat)
    ((quarters * Nat.pow 10 (-d.exponent).toNat) <<< x.exponent.toNat)

-- The decimal lies in the interval of the number. The ends belong to it if the significand is even.
def identifiedBy (x : Binary64) (d : Decimal) : Bool :=
  let even := x.significand % 2 == 0
  let low := x.compareQuarters d x.ends.1
  let high := x.compareQuarters d x.ends.2
  (low == .gt || (even && low == .eq)) && (high == .lt || (even && high == .eq))

-- The number of digits before the point, or minus the number of zeros after it, so that the value
-- is at least 10 ^ (scale - 1) and below 10 ^ scale. No number but zero is below 10 ^ -400.
def scale (x : Binary64) : Int :=
  let (num, den) := x.fraction
  ((Nat.toDigits 10 (num * Nat.pow 10 400 / den)).length : Int) - 400

-- The nearest decimal with the given last place that identifies the number. Only the two neighbours
-- of the value among the multiples of that place can do so. Of two equally near the even one.
def onGrid? (x : Binary64) (place : Int) : Option Decimal :=
  let (num, den) := x.fraction
  let num := num * Nat.pow 10 (-place).toNat
  let den := den * Nat.pow 10 place.toNat
  let below := num / den
  match x.identifiedBy ⟨below, place⟩, x.identifiedBy ⟨below + 1, place⟩ with
  | true, true => some ⟨roundDiv num den, place⟩
  | true, false => some ⟨below, place⟩
  | false, true => some ⟨below + 1, place⟩
  | false, false => none

-- The shortest decimal of a number that is not zero: of the decimals with the fewest digits among
-- those that are read back as the number, the nearest. Seventeen digits always suffice; should
-- they not, the value itself is written out.
def shortest (x : Binary64) : Decimal :=
  let found := (List.range 17).findSome? fun n => x.onGrid? (x.scale - (n + 1 : Nat))
  let value := (x.significand * Nat.pow 5 (-x.exponent).toNat) <<< x.exponent.toNat
  let exact : Decimal := ⟨value, min x.exponent 0⟩
  (found.getD exact).strip

end Binary64

end Wireframe
