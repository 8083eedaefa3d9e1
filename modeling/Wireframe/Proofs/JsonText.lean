import Mathlib.Algebra.Group.Int.Defs
import Mathlib.Algebra.Group.Nat.Defs
import Mathlib.Data.List.Basic
import Wireframe.Json.Parser
import Wireframe.Json.Printer
import Wireframe.Proofs.Ledger

namespace Wireframe.Json

def Blank (text : List Char) : Prop := ∀ c ∈ text, isSpace c = true

theorem skipSpace_cons {c : Char} (hc : isSpace c = false) (rest : List Char) :
    skipSpace (c :: rest) = c :: rest :=
  List.dropWhile_cons_of_neg (by simp [hc])

-- A character with which a number can go on.
def goesOn (c : Char) : Bool := c.isDigit || c == '.' || c == 'e' || c == 'E'

-- What comes behind a number does not go on with it.
def Ends (rest : List Char) : Prop := ∀ c ∈ rest.head?, goesOn c = false

-- A number only grows with further digits.
theorem le_ofDigitChars (digits : List Char) (n : Nat) : n ≤ Nat.ofDigitChars 10 digits n := by
  induction digits generalizing n with
  | nil => exact Nat.le_refl n
  | cons c rest ih =>
    rw [Nat.ofDigitChars_cons]
    exact Nat.le_trans (by omega) (ih _)

theorem wholePart_cons (n : Nat) (c : Char) (rest : List Char) :
    wholePart n (c :: rest) =
      match appendDigit? n c with
      | some next => wholePart next rest
      | none => (n, rest.length + 1) :=
  rfl

theorem wholePart_of_lt {digits : List Char} {n : Nat}
    (hbound : Nat.ofDigitChars 10 digits n < wordBound) :
    wholePart n digits = (Nat.ofDigitChars 10 digits n, 0) := by
  induction digits generalizing n with
  | nil => rfl
  | cons c rest ih =>
    rw [Nat.ofDigitChars_cons] at hbound ⊢
    have hnext : appendDigit? n c = some (10 * n + Text.asciiValue c) :=
      if_pos (Nat.lt_of_le_of_lt (le_ofDigitChars rest _) hbound)
    rw [wholePart_cons, hnext]
    exact ih hbound

theorem head?_toDigits {n : Nat} (hpos : 0 < n) : (Nat.toDigits 10 n).head? ≠ some '0' := by
  induction n using Nat.strongRecOn with
  | ind n ih =>
    by_cases hlt : n < 10
    · rw [Nat.toDigits_of_lt_base hlt]
      have hall : ∀ m < 10, 0 < m → [m.digitChar].head? ≠ some '0' := by decide
      exact hall n hlt hpos
    · rw [Nat.toDigits_of_base_le (by decide) (by omega),
        List.head?_append_of_ne_nil _ Nat.toDigits_ne_nil]
      exact ih (n / 10) (by omega) (by omega)

theorem exponentPart?_of_ends {rest : List Char} (hends : Ends rest) :
    exponentPart? rest = some (none, rest) := by
  cases rest with
  | nil => rfl
  | cons c rest =>
    have hc := hends c rfl
    simp only [goesOn, Bool.or_eq_false_iff] at hc
    simp [exponentPart?, hc]

-- A whole number part: digits of which the first is no zero, unless it is the only one.
structure Whole (digits : List Char) : Prop where
  isDigit : ∀ c ∈ digits, c.isDigit = true
  notEmpty : digits ≠ []
  noZero : digits.head? = some '0' → digits.length = 1

theorem Whole.valid {digits : List Char} (h : Whole digits) :
    (digits.isEmpty || digits.head? == some '0' && digits.length != 1) = false := by
  have hempty := h.notEmpty
  have hzero := h.noZero
  simp_all

theorem isDigit_head_of_ends {rest : List Char} (hends : Ends rest) :
    ∀ c ∈ rest.head?, c.isDigit = false := by
  intro c hc
  have hgoes := hends c hc
  simp only [goesOn, Bool.or_eq_false_iff] at hgoes
  exact hgoes.1.1.1

theorem takeWhile_digits {digits rest : List Char} (hdigits : ∀ c ∈ digits, c.isDigit = true)
    (hrest : ∀ c ∈ rest.head?, c.isDigit = false) :
    (digits ++ rest).takeWhile Char.isDigit = digits := by
  rw [List.takeWhile_append_of_pos hdigits]
  cases rest with
  | nil => exact List.append_nil digits
  | cons c rest => simp [hrest c rfl]

theorem forall_isDigit_toDigits (n : Nat) : ∀ c ∈ Nat.toDigits 10 n, c.isDigit = true :=
  fun _ hc => Nat.isDigit_of_mem_toDigits (by decide) (by decide) hc

theorem whole_toDigits (n : Nat) : Whole (Nat.toDigits 10 n) where
  isDigit := forall_isDigit_toDigits n
  notEmpty := Nat.toDigits_ne_nil
  noZero hzero := by
    cases Nat.eq_zero_or_pos n with
    | inl h => subst h; rfl
    | inr h => exact absurd hzero (head?_toDigits h)

-- Digits are read as a whole number, unless there is a sign before a zero or before too large a
-- one.
theorem unsigned?_toDigits (negative : Bool) {n : Nat} (hbound : n < wordBound)
    (hnegative : negative = true → 0 < n ∧ n ≤ 2 ^ 63) {rest : List Char} (hends : Ends rest) :
    unsigned? negative (Nat.toDigits 10 n ++ rest) =
      some (int (if negative then -n else n), rest) := by
  have htake : (Nat.toDigits 10 n ++ rest).takeWhile Char.isDigit = Nat.toDigits 10 n :=
    takeWhile_digits (forall_isDigit_toDigits n) (isDigit_head_of_ends hends)
  have hwhole : wholePart 0 (Nat.toDigits 10 n) = (n, 0) := by
    have hvalue := Nat.ofDigitChars_ten_toDigits (n := n)
    rw [wholePart_of_lt (by rwa [hvalue]), hvalue]
  rw [unsigned?, htake, List.drop_left, (whole_toDigits n).valid]
  simp only [Bool.false_eq_true, if_false, hwhole]
  split
  · cases hends '.' rfl
  · rw [exponentPart?_of_ends hends]
    cases negative with
    | false => rfl
    | true =>
      obtain ⟨hpos, hle⟩ := hnegative rfl
      have hrange : ¬ (n == 0 || decide (wordBound / 2 < n)) = true := by
        rw [Bool.or_eq_true, beq_iff_eq, decide_eq_true_iff, wordBound, UInt64.size]
        omega
      exact if_neg hrange

theorem number?_of_ne_minus {c : Char} (rest : List Char) (hc : c ≠ '-') :
    number? (c :: rest) = unsigned? false (c :: rest) := by
  unfold number?
  split
  · next heq => exact absurd (List.cons.inj heq).1 hc
  · rfl

theorem exists_toDigits_eq_cons (n : Nat) :
    ∃ c rest, Nat.toDigits 10 n = c :: rest ∧ c.isDigit = true := by
  obtain ⟨c, rest, hdigits⟩ := List.exists_cons_of_ne_nil (Nat.toDigits_ne_nil (b := 10) (n := n))
  have hall := forall_isDigit_toDigits n
  rw [hdigits] at hall
  exact ⟨c, rest, hdigits, hall c List.mem_cons_self⟩

-- A whole number that fits in a word, with its sign or without, comes back.
theorem number?_printInt {n : Int} (hlow : -2 ^ 63 ≤ n) (hhigh : n < 2 ^ 64) {rest : List Char}
    (hends : Ends rest) : number? (printInt n ++ rest) = some (int n, rest) := by
  have hbound : n.natAbs < wordBound := by
    rw [wordBound, UInt64.size]
    omega
  by_cases hneg : n < 0
  · have hvalue : -(n.natAbs : Int) = n := by omega
    have hread := unsigned?_toDigits true hbound (fun _ => by omega) hends
    rw [if_pos rfl, hvalue] at hread
    rw [printInt, if_pos hneg, List.singleton_append, List.cons_append, number?, hread]
  · have hvalue : (n.natAbs : Int) = n := by omega
    have hread := unsigned?_toDigits false hbound nofun hends
    rw [if_neg Bool.false_ne_true, hvalue] at hread
    rw [printInt, if_neg hneg, List.nil_append]
    obtain ⟨c, digits, hdigits, hc⟩ := exists_toDigits_eq_cons n.natAbs
    rw [hdigits, List.cons_append] at hread ⊢
    rw [number?_of_ne_minus, hread]
    rintro rfl
    contradiction

-- The escape of a control character.
theorem stringTail?_control (read : List Char) {c : Char} (hc : c.toNat < 0x20)
    (rest : List Char) :
    stringTail? read ('\\' :: 'u' :: '0' :: '0' :: Text.hexDigit (c.toNat / 16) ::
      Text.hexDigit (c.toNat % 16) :: rest) = stringTail? (c :: read) rest := by
  have hvalue : ∀ n < 0x20, hex4? '0' '0' (Text.hexDigit (n / 16)) (Text.hexDigit (n % 16)) =
      some n ∧ isLowSurrogate n = false ∧ isHighSurrogate n = false := by decide
  obtain ⟨hhex, hlow, hhigh⟩ := hvalue c.toNat hc
  rw [stringTail?, hhex]
  simp only [hlow, hhigh, Bool.false_eq_true, if_false, Char.ofNat_toNat]

theorem stringTail?_plain (read : List Char) {c : Char} (hquote : c ≠ '"') (hbackslash : c ≠ '\\')
    (hc : 0x20 ≤ c.toNat) (rest : List Char) :
    stringTail? read (c :: rest) = stringTail? (c :: read) rest := by
  rw [stringTail?, if_neg (by omega)]
  · exact hquote
  · intro _ _ _ _ _ heq
    exact absurd heq hbackslash
  · intro _ _ heq
    exact absurd heq hbackslash

-- The form in which a character is written is read as that character.
theorem stringTail?_printChar (read : List Char) (c : Char) (rest : List Char) :
    stringTail? read (printChar c ++ rest) = stringTail? (c :: read) rest := by
  by_cases hquote : c = '"'
  · subst hquote; rfl
  by_cases hbackslash : c = '\\'
  · subst hbackslash; rfl
  by_cases hnewline : c = '\n'
  · subst hnewline; rfl
  by_cases hreturn : c = '\r'
  · subst hreturn; rfl
  by_cases htab : c = '\t'
  · subst htab; rfl
  by_cases hback : c.toNat = 8
  · obtain rfl : c = Char.ofNat 8 := by rw [← hback, Char.ofNat_toNat]
    rfl
  by_cases hfeed : c.toNat = 12
  · obtain rfl : c = Char.ofNat 12 := by rw [← hfeed, Char.ofNat_toNat]
    rfl
  by_cases hcontrol : c.toNat < 0x20
  · simp only [printChar, beq_iff_eq, hquote, hbackslash, hnewline, hreturn, htab, hback, hfeed,
      hcontrol, if_false, if_true, List.cons_append, List.nil_append]
    exact stringTail?_control read hcontrol rest
  · simp only [printChar, beq_iff_eq, hquote, hbackslash, hnewline, hreturn, htab, hback, hfeed,
      hcontrol, if_false, List.cons_append, List.nil_append]
    exact stringTail?_plain read hquote hbackslash (by omega) rest

theorem printString_append (s : String) (text : List Char) :
    printString s ++ text = '"' :: (s.toList.flatMap printChar ++ '"' :: text) := by
  simp [printString]

theorem stringTail?_printString (s : String) (rest : List Char) :
    stringTail? [] (s.toList.flatMap printChar ++ '"' :: rest) = some (s, rest) := by
  have hall : ∀ (text read : List Char), stringTail? read (text.flatMap printChar ++ '"' :: rest) =
      some (String.ofList (read.reverse ++ text), rest) := by
    intro text
    induction text with
    | nil => intro read; rw [List.append_nil]; rfl
    | cons c text ih =>
      intro read
      rw [List.flatMap_cons, List.append_assoc, stringTail?_printChar, ih, List.reverse_cons,
        List.append_assoc, List.singleton_append]
  rw [hall, List.reverse_nil, List.nil_append, String.ofList_toList]

def startsNumber (c : Char) : Bool := c == '-' || c.isDigit

theorem exists_printInt_eq_cons (n : Int) :
    ∃ c rest, printInt n = c :: rest ∧ startsNumber c = true := by
  obtain ⟨c, rest, hdigits, hc⟩ := exists_toDigits_eq_cons n.natAbs
  rw [printInt, hdigits]
  split
  · exact ⟨'-', c :: rest, rfl, rfl⟩
  · exact ⟨c, rest, rfl, by simp [startsNumber, hc]⟩

theorem exists_printDecimal_eq_cons {c : Char} {rest : List Char} (hc : c.isDigit = true)
    (leading : Int) : ∃ d more, printDecimal (c :: rest) leading = d :: more ∧ d.isDigit = true := by
  unfold printDecimal
  split
  · exact ⟨c, _, rfl, hc⟩
  · split
    · exact ⟨'0', _, rfl, rfl⟩
    · exact ⟨c, _, rfl, hc⟩

theorem exists_printFloat_eq_cons (x : Binary64) :
    ∃ c rest, printFloat x = c :: rest ∧ startsNumber c = true := by
  have hbody : ∃ c rest, (if x.isZero then ['0', '.', '0']
      else printDecimal (Nat.toDigits 10 x.shortest.digits) x.shortest.leading) = c :: rest ∧
        c.isDigit = true := by
    split
    · exact ⟨'0', _, rfl, rfl⟩
    · obtain ⟨d, digits, hdigits, hd⟩ := exists_toDigits_eq_cons x.shortest.digits
      rw [hdigits]
      exact exists_printDecimal_eq_cons hd _
  obtain ⟨c, rest, hprint, hc⟩ := hbody
  rw [printFloat, hprint]
  cases x.negative with
  | false => exact ⟨c, rest, rfl, by simp [startsNumber, hc]⟩
  | true => exact ⟨'-', c :: rest, rfl, rfl⟩

-- A character with which a value can start.
structure Opens (c : Char) : Prop where
  notSpace : isSpace c = false
  notClosing : c ≠ ']'

theorem opens_of_startsNumber {c : Char} (hc : startsNumber c = true) : Opens c := by
  constructor
  · by_contra hspace
    simp only [isSpace, Bool.not_eq_false, Bool.or_eq_true, beq_iff_eq] at hspace
    rcases hspace with ((rfl | rfl) | rfl) | rfl <;> cases hc
  · rintro rfl
    cases hc

theorem exists_print_eq_cons (style : Style) (level : Nat) (json : Json) :
    ∃ c rest, json.print style level = c :: rest ∧ Opens c := by
  cases json with
  | null => exact ⟨'n', _, rfl, by decide, by decide⟩
  | bool b => cases b <;> exact ⟨_, _, rfl, by decide, by decide⟩
  | int n =>
    obtain ⟨c, rest, hprint, hc⟩ := exists_printInt_eq_cons n
    exact ⟨c, rest, hprint, opens_of_startsNumber hc⟩
  | float x =>
    obtain ⟨c, rest, hprint, hc⟩ := exists_printFloat_eq_cons x
    exact ⟨c, rest, hprint, opens_of_startsNumber hc⟩
  | string s => exact ⟨'"', _, rfl, by decide, by decide⟩
  | array items => cases items <;> exact ⟨'[', _, rfl, by decide, by decide⟩
  | object fields =>
    rcases fields with _ | ⟨⟨key, value⟩, fields⟩ <;> exact ⟨'{', _, rfl, by decide, by decide⟩

mutual

-- How deep arrays and objects are nested.
def depth : Json → Nat
  | array items => depthOfItems items + 1
  | object fields => depthOfFields fields + 1
  | _ => 0

def depthOfItems : List Json → Nat
  | [] => 0
  | item :: rest => max item.depth (depthOfItems rest)

def depthOfFields : List (String × Json) → Nat
  | [] => 0
  | (_, value) :: rest => max value.depth (depthOfFields rest)

end

theorem depthOfItems_le_iff {items : List Json} {bound : Nat} :
    depthOfItems items ≤ bound ↔ ∀ item ∈ items, item.depth ≤ bound := by
  induction items with
  | nil => simp [depthOfItems]
  | cons item rest ih => rw [depthOfItems, Nat.max_le, ih, List.forall_mem_cons]

theorem depthOfFields_le_iff {fields : Fields} {bound : Nat} :
    depthOfFields fields ≤ bound ↔ ∀ entry ∈ fields, entry.2.depth ≤ bound := by
  induction fields with
  | nil => simp [depthOfFields]
  | cons entry rest ih => rw [depthOfFields, Nat.max_le, ih, List.forall_mem_cons]

-- A style that writes nothing but blanks between tokens.
structure Style.Blank (style : Style) : Prop where
  lineBreak : ∀ level, Json.Blank (style.lineBreak level)
  afterColon : Json.Blank style.afterColon

theorem Style.blank_pretty : Style.pretty.Blank := by
  constructor
  · intro level c hc
    rcases List.mem_cons.mp hc with rfl | hc
    · rfl
    · obtain rfl := List.eq_of_mem_replicate hc
      rfl
  · intro c hc
    obtain rfl := List.mem_singleton.mp hc
    rfl

-- Reading what is written for a value gives a value and goes on behind it. The reader takes two
-- steps for a character at most.
def ReadsAs (style : Style) (json result : Json) : Prop :=
  ∀ (level : Nat) (rest : List Char) {fuel nesting : Nat}, json.depth ≤ nesting → Ends rest →
    2 * (json.print style level).length < fuel →
    value? fuel nesting (json.print style level ++ rest) = some (result, rest)

section

variable {blanks : List Char} (hblanks : Blank blanks) (fuel nesting : Nat) (text : List Char)

include hblanks

theorem skipSpace_blanks : skipSpace (blanks ++ text) = skipSpace text :=
  List.dropWhile_append_of_pos hblanks

theorem value?_blanks : value? fuel nesting (blanks ++ text) = value? fuel nesting text := by
  cases fuel with
  | zero => rw [value?, value?]
  | succ fuel => rw [value?, value?, skipSpace_blanks hblanks]

theorem items?_blanks (read : List Json) :
    items? fuel nesting read (blanks ++ text) = items? fuel nesting read text := by
  cases fuel with
  | zero => rw [items?, items?]
  | succ fuel => rw [items?, items?, value?_blanks hblanks]

theorem fields?_blanks (read : Fields) :
    fields? fuel nesting read (blanks ++ text) = fields? fuel nesting read text := by
  cases fuel with
  | zero => rw [fields?, fields?]
  | succ fuel => rw [fields?, fields?, skipSpace_blanks hblanks]

theorem ends_blanks {c : Char} (hc : goesOn c = false) : Ends (blanks ++ c :: text) := by
  cases blanks with
  | nil =>
    rintro _ ⟨⟩
    exact hc
  | cons blank blanks =>
    rintro _ ⟨⟩
    have hspace := hblanks blank List.mem_cons_self
    simp only [isSpace, Bool.or_eq_true, beq_iff_eq] at hspace
    rcases hspace with ((rfl | rfl) | rfl) | rfl <;> decide

end

theorem readsAs_null (style : Style) : ReadsAs style null null := by
  intro level rest fuel nesting _ _ hfuel
  cases fuel with
  | zero => omega
  | succ fuel => rfl

theorem readsAs_bool (style : Style) (b : Bool) : ReadsAs style (bool b) (bool b) := by
  intro level rest fuel nesting _ _ hfuel
  cases fuel with
  | zero => omega
  | succ fuel => cases b <;> rfl

theorem readsAs_string (style : Style) (s : String) : ReadsAs style (string s) (string s) := by
  intro level rest fuel nesting _ _ hfuel
  cases fuel with
  | zero => omega
  | succ fuel =>
    rw [print, printString_append, value?]
    change (stringTail? [] (s.toList.flatMap printChar ++ '"' :: rest)).map _ = _
    rw [stringTail?_printString]
    rfl

theorem value?_number (fuel nesting : Nat) {c : Char} (rest : List Char) (hc : startsNumber c = true) :
    value? (fuel + 1) nesting (c :: rest) = number? (c :: rest) := by
  rw [value?, skipSpace_cons (opens_of_startsNumber hc).notSpace]
  split
  case h_7 => rfl
  all_goals
    next heq =>
      obtain ⟨rfl, -⟩ := List.cons.inj heq
      cases hc

theorem readsAs_number {style : Style} {json result : Json}
    (hprint : ∀ level, ∃ c digits, json.print style level = c :: digits ∧ startsNumber c = true)
    (hread : ∀ level {rest : List Char}, Ends rest →
      number? (json.print style level ++ rest) = some (result, rest)) :
    ReadsAs style json result := by
  intro level rest fuel nesting _ hends hfuel
  cases fuel with
  | zero => omega
  | succ fuel =>
    have hnumber := hread level hends
    obtain ⟨c, digits, htext, hc⟩ := hprint level
    rw [htext] at hnumber
    rw [htext, List.cons_append, value?_number fuel nesting _ hc]
    exact hnumber

theorem readsAs_int (style : Style) {n : Int} (hlow : -2 ^ 63 ≤ n) (hhigh : n < 2 ^ 64) :
    ReadsAs style (int n) (int n) :=
  readsAs_number (fun _ => by rw [print]; exact exists_printInt_eq_cons n)
    fun _ _ hends => by rw [print]; exact number?_printInt hlow hhigh hends

-- The text of an array from left to right, the way it is read.
theorem print_array_cons (style : Style) (level : Nat) (item : Json) (items : List Json) :
    (array (item :: items)).print style level =
      '[' :: (style.lineBreak (level + 1) ++ (item.print style (level + 1) ++
        (printItems style (level + 1) items ++ (style.lineBreak level ++ [']'])))) := by
  simp [print]

theorem printItems_cons (style : Style) (level : Nat) (item : Json) (items : List Json)
    (text : List Char) :
    printItems style level (item :: items) ++ text =
      ',' :: (style.lineBreak level ++ (item.print style level ++
        (printItems style level items ++ text))) := by
  simp [printItems]

-- Behind an item comes a comma with another one, or the closing bracket.
theorem items?_print {style : Style} (hstyle : style.Blank) (level : Nat) {close : List Char}
    (hclose : Blank close) (rest : List Char) {item : Json} {items : List Json} (read : List Json)
    {f : Json → Json} (hitems : ∀ inner ∈ item :: items, ReadsAs style inner (f inner))
    {nesting : Nat}
    (hdepth : ∀ inner ∈ item :: items, inner.depth ≤ nesting) {fuel : Nat}
    (hfuel : 2 * ((item.print style level).length + (printItems style level items).length) + 1 <
      fuel) :
    items? fuel nesting read (item.print style level ++
        (printItems style level items ++ (close ++ ']' :: rest))) =
      some (read.reverse ++ (item :: items).map f, rest) := by
  induction items generalizing item fuel read with
  | nil =>
    obtain ⟨hitem, -⟩ := List.forall_mem_cons.mp hitems
    have hends : Ends (close ++ ']' :: rest) := ends_blanks hclose rest (by decide)
    cases fuel with
    | zero => omega
    | succ fuel =>
      have hvalue := hitem level (close ++ ']' :: rest) (hdepth item List.mem_cons_self) hends
        (by omega : _ < fuel)
      rw [items?, printItems, List.nil_append, hvalue]
      simp only [skipSpace_blanks hclose, skipSpace_cons (c := ']') rfl]
      rw [List.reverse_cons, List.map_singleton]
  | cons next items ih =>
    obtain ⟨hitem, hitems⟩ := List.forall_mem_cons.mp hitems
    obtain ⟨hitemDepth, hdepth⟩ := List.forall_mem_cons.mp hdepth
    rw [printItems_cons]
    have hlength := congrArg List.length (printItems_cons style level next items [])
    simp only [List.append_nil, List.length_cons, List.length_append] at hlength
    cases fuel with
    | zero => omega
    | succ fuel =>
      have hvalue := hitem level (',' :: (style.lineBreak level ++ (next.print style level ++
        (printItems style level items ++ (close ++ ']' :: rest))))) hitemDepth
        (by rintro _ ⟨⟩; rfl) (by omega : _ < fuel)
      rw [items?, hvalue]
      simp only [skipSpace_cons (c := ',') rfl]
      rw [items?_blanks (hstyle.lineBreak level), ih _ hitems hdepth (by omega), List.reverse_cons,
        List.append_assoc, List.singleton_append, List.map_cons (a := item)]

theorem value?_array (fuel nesting : Nat) {blanks text : List Char} (hblanks : Blank blanks)
    (htext : ∃ c more, text = c :: more ∧ Opens c) (rest : List Char) :
    value? (fuel + 1) (nesting + 1) ('[' :: (blanks ++ (text ++ rest))) =
      (items? fuel nesting [] (text ++ rest)).map fun (items, rest) => (array items, rest) := by
  obtain ⟨c, more, rfl, hc⟩ := htext
  rw [value?, skipSpace_cons rfl]
  simp only [List.cons_append, skipSpace_blanks hblanks, skipSpace_cons hc.notSpace]
  split
  · next heq => exact absurd (List.cons.inj heq).1 hc.notClosing
  · rfl

theorem readsAs_array {style : Style} (hstyle : style.Blank) {items : List Json} {f : Json → Json}
    (hitems : ∀ item ∈ items, ReadsAs style item (f item)) :
    ReadsAs style (array items) (array (items.map f)) := by
  intro level rest fuel nesting hdepth hends hfuel
  rw [depth] at hdepth
  obtain ⟨nesting, rfl⟩ : ∃ inner, nesting = inner + 1 := ⟨nesting - 1, by omega⟩
  cases fuel with
  | zero => omega
  | succ fuel =>
    cases items with
    | nil => rfl
    | cons item items =>
      rw [print_array_cons] at hfuel ⊢
      simp only [List.length_cons, List.length_append] at hfuel
      have hread := items?_print hstyle (level + 1) (hstyle.lineBreak level) rest [] hitems
        (depthOfItems_le_iff.mp (by omega : _ ≤ nesting)) (by omega : _ < fuel)
      simp only [List.cons_append, List.append_assoc, List.nil_append]
      rw [value?_array fuel nesting (hstyle.lineBreak (level + 1))
        (exists_print_eq_cons style (level + 1) item), hread]
      rfl

-- An entry of an object.
def printEntry (style : Style) (level : Nat) (key : String) (value : Json) : List Char :=
  printString key ++ ':' :: (style.afterColon ++ value.print style level)

theorem print_object_cons (style : Style) (level : Nat) (key : String) (value : Json)
    (fields : Fields) :
    (object ((key, value) :: fields)).print style level =
      '{' :: (style.lineBreak (level + 1) ++ (printEntry style (level + 1) key value ++
        (printFields style (level + 1) fields ++ (style.lineBreak level ++ ['}'])))) := by
  simp [print, printEntry]

theorem length_print_le (style : Style) (level : Nat) (key : String) (value : Json) :
    (value.print style level).length ≤ (printEntry style level key value).length := by
  simp only [printEntry, List.length_append, List.length_cons]
  omega

theorem printFields_cons (style : Style) (level : Nat) (key : String) (value : Json)
    (fields : Fields) (text : List Char) :
    printFields style level ((key, value) :: fields) ++ text =
      ',' :: (style.lineBreak level ++ (printEntry style level key value ++
        (printFields style level fields ++ text))) := by
  simp [printFields, printEntry]

-- What comes behind the entries that have been read: a comma with more, or the closing brace.
def afterEntry (fuel nesting : Nat) (read : Fields) : List Char → Option (Fields × List Char)
  | ',' :: rest => fields? fuel nesting read rest
  | '}' :: rest => some (read, rest)
  | _ => none

-- Reading an entry with a new key adds it at the end.
theorem fields?_printEntry {style : Style} (hstyle : style.Blank) (level : Nat) (rest : List Char)
    {read : Fields} {key : String} (hkey : key ∉ Ledger.keys read) {value : Json}
    {result : Json} (hvalue : ReadsAs style value result) {nesting : Nat}
    (hdepth : value.depth ≤ nesting) (hends : Ends rest) {fuel : Nat}
    (hfuel : 2 * (value.print style level).length < fuel) :
    fields? (fuel + 1) nesting read (printEntry style level key value ++ rest) =
      afterEntry fuel nesting (read ++ [(key, result)]) (skipSpace rest) := by
  rw [printEntry, List.append_assoc, printString_append, List.cons_append, List.append_assoc,
    fields?, skipSpace_cons rfl]
  simp only [stringTail?_printString, skipSpace_cons (c := ':') rfl,
    value?_blanks hstyle.afterColon, hvalue level rest hdepth hends hfuel,
    Ledger.insert_of_notMem hkey]
  rfl

theorem notMem_keys {read fields : Fields} {key : String} {value : Json}
    (hdistinct : (Ledger.keys read ++ Ledger.keys ((key, value) :: fields)).Nodup) :
    key ∉ Ledger.keys read :=
  fun hkey => (List.nodup_append.mp hdistinct).2.2 key hkey key List.mem_cons_self rfl

theorem fields?_print {style : Style} (hstyle : style.Blank) (level : Nat) {close : List Char}
    (hclose : Blank close) (rest : List Char) {key : String} {value : Json} {fields : Fields}
    (read : Fields) (hdistinct : (Ledger.keys read ++ Ledger.keys ((key, value) :: fields)).Nodup)
    {f : Json → Json}
    (hvalues : ∀ entry ∈ (key, value) :: fields, ReadsAs style entry.2 (f entry.2)) {nesting : Nat}
    (hdepth : ∀ entry ∈ (key, value) :: fields, entry.2.depth ≤ nesting) {fuel : Nat}
    (hfuel : 2 * ((printEntry style level key value).length +
      (printFields style level fields).length) + 1 < fuel) :
    fields? fuel nesting read (printEntry style level key value ++
        (printFields style level fields ++ (close ++ '}' :: rest))) =
      some (read ++ Ledger.mapValues f ((key, value) :: fields), rest) := by
  induction fields generalizing key value fuel read with
  | nil =>
    have hvalue : ReadsAs style value (f value) := hvalues _ List.mem_cons_self
    have hends : Ends (close ++ '}' :: rest) := ends_blanks hclose rest (by decide)
    have hlength := length_print_le style level key value
    cases fuel with
    | zero => omega
    | succ fuel =>
      rw [printFields, List.nil_append, fields?_printEntry hstyle level _ (notMem_keys hdistinct)
        hvalue (hdepth _ List.mem_cons_self) hends (by omega)]
      rw [skipSpace_blanks hclose, skipSpace_cons rfl, afterEntry]
      rfl
  | cons next fields ih =>
    obtain ⟨nextKey, nextValue⟩ := next
    have hvalue : ReadsAs style value (f value) := hvalues _ List.mem_cons_self
    have hvalueDepth : value.depth ≤ nesting := hdepth _ List.mem_cons_self
    have hlength := length_print_le style level key value
    have hfields := congrArg List.length
      (printFields_cons style level nextKey nextValue fields [])
    simp only [List.append_nil, List.length_cons, List.length_append] at hfields
    cases fuel with
    | zero => omega
    | succ fuel =>
      rw [printFields_cons, fields?_printEntry hstyle level _ (notMem_keys hdistinct)
        hvalue hvalueDepth (by rintro _ ⟨⟩; rfl) (by omega)]
      have hmore : (Ledger.keys (read ++ [(key, f value)]) ++
          Ledger.keys ((nextKey, nextValue) :: fields)).Nodup := by
        rw [Ledger.keys, List.map_append, List.append_assoc]
        exact hdistinct
      rw [skipSpace_cons rfl, afterEntry, fields?_blanks (hstyle.lineBreak level),
        ih _ hmore (List.forall_mem_cons.mp hvalues).2 (List.forall_mem_cons.mp hdepth).2
          (by omega), List.append_assoc]
      rfl

theorem value?_object (fuel nesting : Nat) {blanks : List Char} (hblanks : Blank blanks)
    (level : Nat) (key : String) (value : Json) (rest : List Char) :
    value? (fuel + 1) (nesting + 1)
        ('{' :: (blanks ++ (printEntry style level key value ++ rest))) =
      (fields? fuel nesting [] (printEntry style level key value ++ rest)).map
        fun (fields, rest) => (object fields, rest) := by
  rw [value?, skipSpace_cons rfl]
  simp only [printEntry, List.append_assoc, printString_append, List.cons_append,
    skipSpace_blanks hblanks, skipSpace_cons (c := '"') rfl]
  rfl

theorem readsAs_object {style : Style} (hstyle : style.Blank) {fields : Fields}
    (hdistinct : (Ledger.keys fields).Nodup) {f : Json → Json}
    (hvalues : ∀ entry ∈ fields, ReadsAs style entry.2 (f entry.2)) :
    ReadsAs style (object fields) (object (Ledger.mapValues f fields)) := by
  intro level rest fuel nesting hdepth hends hfuel
  rw [depth] at hdepth
  obtain ⟨nesting, rfl⟩ : ∃ inner, nesting = inner + 1 := ⟨nesting - 1, by omega⟩
  cases fuel with
  | zero => omega
  | succ fuel =>
    rcases fields with _ | ⟨⟨key, value⟩, fields⟩
    · rfl
    · rw [print_object_cons] at hfuel ⊢
      simp only [List.length_cons, List.length_append] at hfuel
      have hread := fields?_print hstyle (level + 1) (hstyle.lineBreak level) rest [] hdistinct
        hvalues (depthOfFields_le_iff.mp (by omega : _ ≤ nesting)) (by omega : _ < fuel)
      simp only [List.cons_append, List.append_assoc, List.nil_append]
      rw [value?_object fuel nesting (hstyle.lineBreak (level + 1)), hread]
      rfl

-- Values that their text holds in full: words for numbers, and objects that have each key once.
inductive Plain : Json → Prop
  | null : Plain null
  | bool (b : Bool) : Plain (bool b)
  | int {n : Int} (hlow : -2 ^ 63 ≤ n) (hhigh : n < 2 ^ 64) : Plain (int n)
  | string (s : String) : Plain (string s)
  | array {items : List Json} (hitems : ∀ item ∈ items, Plain item) : Plain (array items)
  | object {fields : Fields} (hdistinct : (Ledger.keys fields).Nodup)
      (hvalues : ∀ entry ∈ fields, Plain entry.2) : Plain (object fields)

theorem Plain.readsAs {style : Style} (hstyle : style.Blank) {json : Json} (hplain : json.Plain) :
    ReadsAs style json json := by
  induction hplain with
  | null => exact readsAs_null style
  | bool b => exact readsAs_bool style b
  | int hlow hhigh => exact readsAs_int style hlow hhigh
  | string s => exact readsAs_string style s
  | @array items _ ih =>
    have hread := readsAs_array (f := id) hstyle ih
    rwa [List.map_id] at hread
  | @object fields hdistinct _ ih =>
    have hread := readsAs_object hstyle hdistinct (f := id) ih
    have hsame : Ledger.mapValues id fields = fields := List.map_id fields
    rwa [hsame] at hread

-- Behind the last value of a text there is nothing left to read.
theorem parse?_of_readsAs {style : Style} {json result : Json} (h : ReadsAs style json result)
    (hdepth : json.depth ≤ maxDepth) :
    parse? (String.ofList (json.print style 0)) = some result := by
  have hread := h 0 [] hdepth nofun (Nat.lt_succ_self _)
  rw [List.append_nil] at hread
  rw [parse?, String.toList_ofList]
  simp only [hread]
  rfl

theorem parse?_print {style : Style} (hstyle : style.Blank) {json : Json} (hplain : json.Plain)
    (hdepth : json.depth ≤ maxDepth) : parse? (String.ofList (json.print style 0)) = some json :=
  parse?_of_readsAs (hplain.readsAs hstyle) hdepth

end Wireframe.Json
