import Wireframe.Json.Basic
import Wireframe.Text.Numeral

namespace Wireframe.Json

-- The deepest nesting of arrays and objects that is read.
def maxDepth : Nat := 127

def isSpace (c : Char) : Bool := c == ' ' || c == '\t' || c == '\n' || c == '\r'

def skipSpace (text : List Char) : List Char := text.dropWhile isSpace

-- Digits are collected as long as the number they form stays below this bound.
@[irreducible]
def wordBound : Nat := UInt64.size

-- Appends a digit, unless the result leaves the range of a word.
def appendDigit? (n : Nat) (c : Char) : Option Nat :=
  let next := 10 * n + Text.asciiValue c
  if next < wordBound then some next else none

-- Collects the digits of a whole number. Once one does not fit, all that follow are only counted.
def wholePart (n : Nat) : List Char → Nat × Nat
  | [] => (n, 0)
  | c :: rest =>
    match appendDigit? n c with
    | some next => wholePart next rest
    | none => (n, rest.length + 1)

-- Collects the digits behind the point, with their number. Those from the first that does not fit
-- are dropped.
def fractionPart (n : Nat) (count : Nat) : List Char → Nat × Nat
  | [] => (n, count)
  | c :: rest =>
    match appendDigit? n c with
    | some next => fractionPart next (count + 1) rest
    | none => (n, count)

-- The largest power of ten that is a binary64 number has this exponent.
def mostPower : Nat := 308

-- x * 10 ^ k, by one multiplication with the number nearest to 10 ^ k.
def scaleUp? (x : Binary64) (k : Nat) : Option Binary64 :=
  if x.isZero then some x
  else if mostPower < k then none
  else do x.mul? (← Binary64.ofNat? (Nat.pow 10 k))

-- x divided a number of times by the largest power of ten.
def divideMost? (x : Binary64) : Nat → Option Binary64
  | 0 => some x
  | times + 1 =>
    if x.isZero then some x
    else do divideMost? (← x.div? (← Binary64.ofNat? (Nat.pow 10 mostPower))) times

-- x / 10 ^ k, by divisions by the largest power of ten as long as k is larger, and a last one.
def scaleDown? (x : Binary64) (k : Nat) : Option Binary64 := do
  let times := (k - 1) / mostPower
  let y ← divideMost? x times
  y.div? (← Binary64.ofNat? (Nat.pow 10 (k - mostPower * times)))

-- ± significand * 10 ^ exponent, or none if that is too large.
def floatOf? (negative : Bool) (significand : Nat) (exponent : Int) : Option Binary64 := do
  let x ← Binary64.ofNat? significand
  let y ← if exponent < 0 then scaleDown? x exponent.natAbs else scaleUp? x exponent.natAbs
  return { y with negative }

-- The exponent of a number behind its mark, if there is one: an optional sign, then digits.
def exponentPart? (text : List Char) : Option (Option Int × List Char) :=
  match text with
  | mark :: rest =>
    if mark == 'e' || mark == 'E' then
      let (negative, rest) :=
        match rest with
        | '-' :: rest => (true, rest)
        | '+' :: rest => (false, rest)
        | _ => (false, rest)
      let digits := rest.takeWhile Char.isDigit
      if digits.isEmpty then none
      else
        let e : Int := Text.ofDigits digits
        some (some (if negative then -e else e), rest.drop digits.length)
    else some (none, text)
  | [] => some (none, [])

-- A number behind its sign.
def unsigned? (negative : Bool) (text : List Char) : Option (Json × List Char) := do
  let digits := text.takeWhile Char.isDigit
  let rest := text.drop digits.length
  if digits.isEmpty || (digits.head? == some '0' && digits.length != 1) then none
  else
    let (n, dropped) := wholePart 0 digits
    match rest with
    | '.' :: rest =>
      let decimals := rest.takeWhile Char.isDigit
      if decimals.isEmpty then none
      else
        let (n, count) := fractionPart n 0 decimals
        let (e, rest) ← exponentPart? (rest.drop decimals.length)
        return (float (← floatOf? negative n (dropped - count + e.getD 0)), rest)
    | _ =>
      match ← exponentPart? rest with
      | (some e, rest) => return (float (← floatOf? negative n (dropped + e)), rest)
      | (none, rest) =>
        if dropped != 0 then return (float (← floatOf? negative n dropped), rest)
        else if !negative then return (int n, rest)
        else if n == 0 || wordBound / 2 < n then return (float (← floatOf? true n 0), rest)
        else return (int (-n), rest)

def number? (text : List Char) : Option (Json × List Char) :=
  match text with
  | '-' :: rest => unsigned? true rest
  | _ => unsigned? false text

def hex4? (a b c d : Char) : Option Nat := do
  return 4096 * (← Text.hexValue? a) + 256 * (← Text.hexValue? b) + 16 * (← Text.hexValue? c)
    + (← Text.hexValue? d)

def isHighSurrogate (n : Nat) : Bool := 0xD800 ≤ n && n ≤ 0xDBFF

def isLowSurrogate (n : Nat) : Bool := 0xDC00 ≤ n && n ≤ 0xDFFF

-- The character that a letter behind a backslash stands for.
def escaped? (c : Char) : Option Char :=
  match c with
  | '"' => some '"'
  | '\\' => some '\\'
  | '/' => some '/'
  | 'b' => some (Char.ofNat 8)
  | 'f' => some (Char.ofNat 12)
  | 'n' => some '\n'
  | 'r' => some '\r'
  | 't' => some '\t'
  | _ => none

-- The rest of a string behind its opening quote, up to the closing one. `read` is what has been
-- read, backwards.
def stringTail? (read : List Char) : List Char → Option (String × List Char)
  | [] => none
  | '"' :: rest => some (String.ofList read.reverse, rest)
  | '\\' :: 'u' :: a :: b :: c :: d :: rest =>
    match hex4? a b c d with
    | none => none
    | some n =>
      if isLowSurrogate n then none
      else if isHighSurrogate n then
        match rest with
        | '\\' :: 'u' :: a :: b :: c :: d :: rest =>
          match hex4? a b c d with
          | none => none
          | some m =>
            if isLowSurrogate m then
              stringTail? (Char.ofNat (0x10000 + (n - 0xD800) * 0x400 + (m - 0xDC00)) :: read) rest
            else none
        | _ => none
      else stringTail? (Char.ofNat n :: read) rest
  | '\\' :: c :: rest =>
    match escaped? c with
    | none => none
    | some x => stringTail? (x :: read) rest
  | c :: rest => if c.toNat < 0x20 then none else stringTail? (c :: read) rest

-- The text behind a given beginning.
def afterWord? (word text : List Char) : Option (List Char) :=
  if word.isPrefixOf text then some (text.drop word.length) else none

mutual

-- A value, with `depth` levels of nesting left. `fuel` bounds the steps; a step takes a character
-- or leads to one that does.
def value? (fuel depth : Nat) (text : List Char) : Option (Json × List Char) :=
  match fuel with
  | 0 => none
  | fuel + 1 =>
    match skipSpace text with
    | '"' :: rest => (stringTail? [] rest).map fun (s, rest) => (string s, rest)
    | '[' :: rest =>
      match depth with
      | 0 => none
      | depth + 1 =>
        match skipSpace rest with
        | ']' :: rest => some (array [], rest)
        | rest => (items? fuel depth [] rest).map fun (items, rest) => (array items, rest)
    | '{' :: rest =>
      match depth with
      | 0 => none
      | depth + 1 =>
        match skipSpace rest with
        | '}' :: rest => some (object [], rest)
        | rest => (fields? fuel depth [] rest).map fun (fields, rest) => (object fields, rest)
    | 't' :: rest => (afterWord? ['r', 'u', 'e'] rest).map fun rest => (bool true, rest)
    | 'f' :: rest => (afterWord? ['a', 'l', 's', 'e'] rest).map fun rest => (bool false, rest)
    | 'n' :: rest => (afterWord? ['u', 'l', 'l'] rest).map fun rest => (null, rest)
    | rest => number? rest

-- The items of an array up to its closing bracket. `read` holds those before, backwards.
def items? (fuel depth : Nat) (read : List Json) (text : List Char) :
    Option (List Json × List Char) :=
  match fuel with
  | 0 => none
  | fuel + 1 =>
    match value? fuel depth text with
    | none => none
    | some (item, rest) =>
      match skipSpace rest with
      | ',' :: rest => items? fuel depth (item :: read) rest
      | ']' :: rest => some ((item :: read).reverse, rest)
      | _ => none

-- The entries of an object up to its closing brace.
def fields? (fuel depth : Nat) (read : Fields) (text : List Char) : Option (Fields × List Char) :=
  match fuel with
  | 0 => none
  | fuel + 1 =>
    match skipSpace text with
    | '"' :: rest =>
      match stringTail? [] rest with
      | none => none
      | some (key, rest) =>
        match skipSpace rest with
        | ':' :: rest =>
          match value? fuel depth rest with
          | none => none
          | some (value, rest) =>
            match skipSpace rest with
            | ',' :: rest => fields? fuel depth (Ledger.insert read key value) rest
            | '}' :: rest => some (Ledger.insert read key value, rest)
            | _ => none
        | _ => none
    | _ => none

end

-- The value that a text holds, if it holds one and nothing else.
def parse? (text : String) : Option Json :=
  let chars := text.toList
  match value? (2 * chars.length + 1) maxDepth chars with
  | some (json, rest) => if (skipSpace rest).isEmpty then some json else none
  | none => none

end Wireframe.Json
