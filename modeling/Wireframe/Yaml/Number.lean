import Wireframe.Text.Numeral

namespace Wireframe.Yaml

-- The number that digits in a base stand for.
def inBase? (base : Nat) (digits : List Char) : Option Nat := do
  let values ← digits.mapM fun c => (Text.hexValue? c).filter (· < base)
  if values.isEmpty then none else some (values.foldl (fun n value => base * n + value) 0)

-- A number without sign: decimal without needless zeros, or in base 16, 8 or 2 with a mark in
-- front.
def magnitude? : List Char → Option Nat
  | '0' :: 'x' :: digits => inBase? 16 digits
  | '0' :: 'o' :: digits => inBase? 8 digits
  | '0' :: 'b' :: digits => inBase? 2 digits
  | digits => if digits.head? == some '0' && digits.length != 1 then none else inBase? 10 digits

def natural? : List Char → Option Nat
  | '+' :: rest => magnitude? rest
  | text => magnitude? text

def integer? : List Char → Option Int
  | '-' :: rest => (magnitude? rest).map fun n => -(n : Int)
  | text => (natural? text).map fun n => n

end Wireframe.Yaml
