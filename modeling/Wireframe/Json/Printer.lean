import Wireframe.Binary64.Digits
import Wireframe.Json.Basic
import Wireframe.Text.Numeral

namespace Wireframe.Json

def printInt (n : Int) : List Char :=
  (if n < 0 then ['-'] else []) ++ Nat.toDigits 10 n.natAbs

-- Digits with the power of ten of the leading one: positional from 10 ^ -5 up to below 10 ^ 16,
-- always with a decimal, and with a signed exponent outside that range.
def printDecimal (digits : List Char) (leading : Int) : List Char :=
  if 0 ≤ leading && leading < 16 then
    let whole := leading.toNat + 1
    let rest := digits.drop whole
    digits.take whole ++ List.replicate (whole - digits.length) '0' ++ ['.'] ++
      (if rest.isEmpty then ['0'] else rest)
  else if -5 ≤ leading && leading < 0 then
    ['0', '.'] ++ List.replicate ((-leading).toNat - 1) '0' ++ digits
  else
    let rest := digits.drop 1
    digits.take 1 ++ (if rest.isEmpty then [] else '.' :: rest) ++ ['e'] ++
      (if leading < 0 then ['-'] else ['+']) ++ Nat.toDigits 10 leading.natAbs

def printFloat (x : Binary64) : List Char :=
  (if x.negative then ['-'] else []) ++
    if x.isZero then ['0', '.', '0']
    else
      let d := x.shortest
      printDecimal (Nat.toDigits 10 d.digits) d.leading

-- A character inside quotes. Only the quote, the backslash and control characters below U+0020 are
-- escaped.
def printChar (c : Char) : List Char :=
  if c == '"' then ['\\', '"']
  else if c == '\\' then ['\\', '\\']
  else if c == '\n' then ['\\', 'n']
  else if c == '\r' then ['\\', 'r']
  else if c == '\t' then ['\\', 't']
  else if c.toNat == 8 then ['\\', 'b']
  else if c.toNat == 12 then ['\\', 'f']
  else if c.toNat < 0x20 then
    ['\\', 'u', '0', '0', Text.hexDigit (c.toNat / 16), Text.hexDigit (c.toNat % 16)]
  else [c]

def printString (s : String) : List Char := '"' :: s.toList.flatMap printChar ++ ['"']

-- The blanks that a style puts between tokens: a line break at a nesting depth, and what follows
-- the colon.
structure Style where
  lineBreak : Nat → List Char
  afterColon : List Char

def Style.compact : Style := ⟨fun _ => [], []⟩

def Style.pretty : Style := ⟨fun depth => '\n' :: List.replicate (2 * depth) ' ', [' ']⟩

mutual

def print (style : Style) (depth : Nat) : Json → List Char
  | null => ['n', 'u', 'l', 'l']
  | bool true => ['t', 'r', 'u', 'e']
  | bool false => ['f', 'a', 'l', 's', 'e']
  | int n => printInt n
  | float x => printFloat x
  | string s => printString s
  | array [] => ['[', ']']
  | array (item :: items) =>
    '[' :: style.lineBreak (depth + 1) ++ print style (depth + 1) item ++
      printItems style (depth + 1) items ++ style.lineBreak depth ++ [']']
  | object [] => ['{', '}']
  | object ((key, value) :: fields) =>
    '{' :: style.lineBreak (depth + 1) ++ printString key ++ ':' :: style.afterColon ++
      print style (depth + 1) value ++ printFields style (depth + 1) fields ++
      style.lineBreak depth ++ ['}']

-- The items after the first, each behind a comma.
def printItems (style : Style) (depth : Nat) : List Json → List Char
  | [] => []
  | item :: items =>
    ',' :: style.lineBreak depth ++ print style depth item ++ printItems style depth items

def printFields (style : Style) (depth : Nat) : List (String × Json) → List Char
  | [] => []
  | (key, value) :: fields =>
    ',' :: style.lineBreak depth ++ printString key ++ ':' :: style.afterColon ++
      print style depth value ++ printFields style depth fields

end

def compact (json : Json) : String := String.ofList (json.print .compact 0)

def pretty (json : Json) : String := String.ofList (json.print .pretty 0)

end Wireframe.Json
