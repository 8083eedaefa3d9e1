namespace Wireframe

-- Every operation on these numbers computes the exact result and rounds it once, to the nearest
-- number and, halfway between two, to the one with an even significand.
-- The finite number ± significand * 2 ^ exponent. In what the operations below produce, the
-- significand is below 2 ^ 53, the exponent lies between -1074 and 971, and unless it is -1074 the
-- significand is at least 2 ^ 52. So each number but zero has one form, and zero has two, by sign.
structure Binary64 where
  negative : Bool
  significand : Nat
  exponent : Int
  deriving DecidableEq, Repr

namespace Binary64

def zero (negative : Bool) : Binary64 := ⟨negative, 0, -1074⟩

def isZero (x : Binary64) : Bool := x.significand == 0

-- Equality of numbers: the two zeros are equal.
def same (x y : Binary64) : Bool := (x.isZero && y.isZero) || x == y

-- The integer nearest to num / den, the even one of two.
def roundDiv (num den : Nat) : Nat :=
  let quotient := num / den
  let twice := 2 * (num % den)
  if twice < den || (twice == den && quotient % 2 == 0) then quotient else quotient + 1

-- num / den divided by 2 ^ e, as a fraction.
def scaleDown (num den : Nat) (e : Int) : Nat × Nat := (num <<< (-e).toNat, den <<< e.toNat)

-- The largest e with 2 ^ e ≤ num / den, for a positive fraction.
def log2Fraction (num den : Nat) : Int :=
  let e := (num.log2 : Int) - den.log2
  let (n, d) := scaleDown num den e
  if d ≤ n then e else e - 1

-- The number nearest to ± num / den, or none if that lies beyond the largest number.
def nearest? (negative : Bool) (num den : Nat) : Option Binary64 :=
  if num == 0 then some (zero negative)
  else
    let e := max (log2Fraction num den - 52) (-1074)
    let (n, d) := scaleDown num den e
    let m := roundDiv n d
    let (m, e) := if m == 1 <<< 53 then (1 <<< 52, e + 1) else (m, e)
    if 971 < e then none else some ⟨negative, m, e⟩

def ofNat? (n : Nat) : Option Binary64 := nearest? false n 1

-- The absolute value, as a fraction.
def fraction (x : Binary64) : Nat × Nat :=
  (x.significand <<< x.exponent.toNat, 1 <<< (-x.exponent).toNat)

def mul? (x y : Binary64) : Option Binary64 :=
  nearest? (x.negative != y.negative) (x.fraction.1 * y.fraction.1) (x.fraction.2 * y.fraction.2)

-- The quotient by a number that is not zero.
def div? (x y : Binary64) : Option Binary64 :=
  nearest? (x.negative != y.negative) (x.fraction.1 * y.fraction.2) (x.fraction.2 * y.fraction.1)

def neg (x : Binary64) : Binary64 := { x with negative := !x.negative }

end Binary64

end Wireframe
