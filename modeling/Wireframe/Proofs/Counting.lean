import Wireframe.Instruction.Request
import Wireframe.Proofs.Ledger
import Wireframe.Proofs.Spelling

namespace Wireframe

namespace Pattern

variable {p q : Pattern} {c e : Cursor} {text : List Char}

theorem between_append (part after : List Char) : between (part ++ after) after = part := by
  simp [between]

theorem exists_of_findFrom? {start : Nat} {before : Option Char} {found : Match}
    (h : p.findFrom? start before text = some found) :
    ∃ c e, e ∈ p.ends c ∧ found.picked = e.picked.map fun part => between part.1 part.2 := by
  induction text generalizing start before with
  | nil =>
    rw [findFrom?] at h
    cases hfront : p.front? before [] with
    | none => simp [hfront] at h
    | some e =>
      rw [hfront] at h
      obtain rfl := Option.some.inj h
      exact ⟨_, e, List.mem_of_head? hfront, rfl⟩
  | cons x rest ih =>
    rw [findFrom?] at h
    cases hfront : p.front? before (x :: rest) with
    | none =>
      rw [hfront] at h
      exact ih h
    | some e =>
      rw [hfront] at h
      obtain rfl := Option.some.inj h
      exact ⟨_, e, List.mem_of_head? hfront, rfl⟩

-- What is picked is the part that is spelled by the pattern to pick.
theorem exists_picked_of_mem_ends_pick (h : e ∈ (pick p).ends c) :
    ∃ part, p.Spells c.before part e.after ∧ e.picked = some (part ++ e.after, e.after) := by
  obtain ⟨mid, hmid, rfl⟩ := List.mem_map.mp h
  obtain ⟨part, hpart, -, hspells⟩ := spells_of_mem_ends hmid
  exact ⟨part, hspells, by rw [hpart]⟩

theorem picked_of_mem_ends_append (h : e ∈ (p ++ q).ends c) (hq : q.picks = false) :
    ∃ mid ∈ p.ends c, e.picked = mid.picked := by
  obtain ⟨mid, hmid, he⟩ := mem_ends_append.mp h
  exact ⟨mid, hmid, (leads_of_mem_ends hq he).picked⟩

end Pattern

namespace Text

theorem isDigit_iff {c : Char} : c.isDigit = true ↔ 48 ≤ c.toNat ∧ c.toNat ≤ 57 := by
  simp [Char.isDigit, UInt32.le_iff_toNat_le]

-- The digits of all other scripts come after ASCII.
theorem digitValue?_of_ascii {c : Char} (h : c.toNat < 128) :
    digitValue? c = if c.isDigit then some (asciiValue c) else none := by
  have hzeros : digitZeros = 0x30 :: digitZeros.tail := rfl
  have hlater : ∀ z ∈ digitZeros.tail, 128 ≤ z := by decide
  rw [digitValue?, hzeros, List.find?_cons]
  by_cases hdigit : c.isDigit = true
  · have hrange := isDigit_iff.mp hdigit
    simp [hdigit, hrange, asciiValue]
  · have hnone : digitZeros.tail.find? (fun z => z ≤ c.toNat && c.toNat ≤ z + 9) = none := by
      rw [List.find?_eq_none]
      intro z hz
      have hbelow : ¬z ≤ c.toNat := by
        have := hlater z hz
        omega
      simp [hbelow]
    have hrange : (decide (0x30 ≤ c.toNat) && decide (c.toNat ≤ 0x30 + 9)) = false := by
      simpa [isDigit_iff] using hdigit
    rw [hrange, hnone, if_neg hdigit]
    rfl

theorem not_isDigit_of_not_ascii {c : Char} (h : 128 ≤ c.toNat) : c.isDigit = false := by
  rw [Bool.eq_false_iff, ne_eq, isDigit_iff]
  omega

theorem fold_of_ascii {c : Char} (h : c.toNat < 128) : fold c = c.toLower := by
  have hlong : (c.toNat == 0x17F) = false := beq_false_of_ne (by omega)
  have hkelvin : (c.toNat == 0x212A) = false := beq_false_of_ne (by omega)
  rw [fold, hlong, hkelvin]
  rfl

theorem toLower_of_not_ascii {c : Char} (h : 128 ≤ c.toNat) : c.toLower = c := by
  have hupper : ¬(c.val ≥ 'A'.val ∧ c.val ≤ 'Z'.val) := by
    rintro ⟨-, hle⟩
    have : c.toNat ≤ 'Z'.toNat := hle
    have : 'Z'.toNat = 90 := rfl
    omega
  exact dif_neg hupper

-- The number that a run of decimal digits of any script stands for.
def numeral? (digits : List Char) : Option Nat :=
  digits.foldlM (fun n c => (digitValue? c).map fun d => 10 * n + d) 0

theorem isSome_numeral? {digits : List Char} (h : ∀ c ∈ digits, isDigit c = true) :
    (numeral? digits).isSome = true := by
  rw [numeral?]
  generalize 0 = n
  induction digits generalizing n with
  | nil => rfl
  | cons c rest ih =>
    obtain ⟨hc, hrest⟩ := List.forall_mem_cons.mp h
    obtain ⟨d, hd⟩ := Option.isSome_iff_exists.mp hc
    rw [List.foldlM_cons, hd]
    exact ih hrest _

theorem numeral?_of_ascii {digits : List Char} (h : ∀ c ∈ digits, c.toNat < 128) :
    numeral? digits = if digits.all Char.isDigit then some (ofDigits digits) else none := by
  rw [numeral?, ofDigits]
  generalize 0 = n
  induction digits generalizing n with
  | nil => rfl
  | cons c rest ih =>
    obtain ⟨hc, hrest⟩ := List.forall_mem_cons.mp h
    rw [List.foldlM_cons, digitValue?_of_ascii hc, List.all_cons, List.foldl_cons]
    cases hdigit : c.isDigit with
    | false => rfl
    | true => exact ih hrest _

end Text

namespace Instruction

open Pattern

variable {before : Option Char} {word after text : List Char}

-- The number that a word names: a number word in letters of either case, or a numeral in the digits of
-- any script.
def named? (word : List Char) : Option Nat :=
  (numberWords.get? (String.ofList (word.map Text.fold))).or (Text.numeral? word)

theorem number?_of_ascii (h : ∀ c ∈ word, c.toNat < 128) (hne : word ≠ []) :
    number? word = named? word := by
  have hfold : word.map Text.fold = Text.lowerAscii word :=
    List.map_congr_left fun c hc => Text.fold_of_ascii (h c hc)
  have hdecimal : Text.numeral? word = Text.decimal? word := by
    rw [Text.numeral?_of_ascii h, Text.decimal?]
    simp [hne]
  rw [number?, named?, hfold, hdecimal]

theorem number?_eq_none {c : Char} (hmem : c ∈ word) (h : 128 ≤ c.toNat) : number? word = none := by
  have hwords : ∀ name ∈ numberWords.keys, ∀ x ∈ name.toList, x.toNat < 128 := by
    simp [numberWords, Ledger.keys]
  have hkey : String.ofList (Text.lowerAscii word) ∉ numberWords.keys := by
    intro hkey
    have hlower : c ∈ Text.lowerAscii word :=
      List.mem_map.mpr ⟨c, hmem, Text.toLower_of_not_ascii h⟩
    have := hwords _ hkey c (by simpa using hlower)
    omega
  have hdecimal : Text.decimal? word = none := by
    have hall : word.all Char.isDigit = false :=
      List.all_eq_false.mpr ⟨c, hmem, by simp [Text.not_isDigit_of_not_ascii h]⟩
    rw [Text.decimal?, hall]
    simp
  rw [number?, Ledger.get?_eq_none_iff.mpr hkey, hdecimal]
  rfl

-- What can be picked as a number names one.
theorem exists_named?
    (hspells : (some1 Text.isDigit ||| litOf numberWords.keys).Spells before word after) :
    word ≠ [] ∧ ∃ n, named? word = some n := by
  rw [spells_or, spells_some1, spells_litOf] at hspells
  rcases hspells with ⟨hne, hall⟩ | ⟨name, hname, hfold⟩
  · obtain ⟨n, hn⟩ := Option.isSome_iff_exists.mp (Text.isSome_numeral? hall)
    rw [named?, hn]
    cases numberWords.get? (String.ofList (word.map Text.fold)) with
    | none => exact ⟨hne, n, rfl⟩
    | some m => exact ⟨hne, m, rfl⟩
  · have hne : ∀ name ∈ numberWords.keys, name.toList ≠ [] := by decide
    have hkey : String.ofList (word.map Text.fold) = name := by rw [hfold, String.ofList_toList]
    have hfound : numberWords.get? name ≠ none := by
      rw [ne_eq, Ledger.get?_eq_none_iff]
      exact not_not_intro hname
    obtain ⟨n, hn⟩ := Option.ne_none_iff_exists'.mp hfound
    refine ⟨?_, n, by rw [named?, hkey, hn]; rfl⟩
    rintro rfl
    exact hne name hname hfold.symm

theorem exists_picked (h : Phrase.inputCount.occursIn text = true) :
    ∃ found word n, Phrase.inputCount.find? text = some found ∧ found.picked = some word ∧
      word ≠ [] ∧ named? word = some n := by
  obtain ⟨found, hfound⟩ := Option.isSome_iff_exists.mp h
  obtain ⟨c, e, he, hpicked⟩ := exists_of_findFrom? hfound
  -- nothing behind the number is picked
  obtain ⟨e₁, he, h₁⟩ := picked_of_mem_ends_append he rfl
  obtain ⟨e₂, he, h₂⟩ := picked_of_mem_ends_append he rfl
  obtain ⟨e₃, he, h₃⟩ := picked_of_mem_ends_append he rfl
  obtain ⟨mid, -, hpick⟩ := mem_ends_append.mp he
  obtain ⟨word, hspells, hword⟩ := exists_picked_of_mem_ends_pick hpick
  obtain ⟨hne, n, hn⟩ := exists_named? hspells
  have hbetween : found.picked = some word := by
    rw [hpicked, h₁, h₂, h₃, hword, Option.map_some, between_append]
  exact ⟨found, word, n, hfound, hbetween, hne, hn⟩

-- A number that is asked for is granted as far as possible, except that one which is not in ASCII
-- counts as the highest possible.
theorem inputCount_eq_min_iff (limits : Limits) (text : List Char)
    (h : Phrase.inputCount.occursIn text = true) :
    ∃ found word n, Phrase.inputCount.find? text = some found ∧ found.picked = some word ∧
      named? word = some n ∧
      (inputCount limits text = min n limits.maxModalInputs ↔
        (∀ c ∈ word, c.toNat < 128) ∨ limits.maxModalInputs ≤ n) := by
  obtain ⟨found, word, n, hfound, hpicked, hne, hn⟩ := exists_picked h
  refine ⟨found, word, n, hfound, hpicked, hn, ?_⟩
  have hcount : inputCount limits text =
      min ((number? word).getD limits.maxModalInputs) limits.maxModalInputs := by
    rw [inputCount, hfound, Option.bind_some, hpicked]
  by_cases hascii : ∀ c ∈ word, c.toNat < 128
  · rw [hcount, number?_of_ascii hascii hne, hn]
    exact iff_of_true rfl (.inl hascii)
  · obtain ⟨c, hmem, hc⟩ : ∃ c ∈ word, 128 ≤ c.toNat := by simpa using hascii
    rw [hcount, number?_eq_none hmem hc, Option.getD_none]
    simp only [hascii, false_or]
    omega

-- A number with a digit that does not count.
def leadingZero : List Char := "add a modal with 012 text fields".toList

theorem leadingZero_counted :
    Phrase.inputCount.occursIn leadingZero = true ∧
      inputCount { maxModalInputs := 20 } leadingZero = 12 := by
  have hoccurs : Phrase.inputCount.occursIn leadingZero = true := by decide +kernel
  have hword : (Phrase.inputCount.find? leadingZero).bind (·.picked) = some ['0', '1', '2'] := by
    decide +kernel
  obtain ⟨found, word, n, hfound, hpicked, hn, hiff⟩ :=
    inputCount_eq_min_iff { maxModalInputs := 20 } leadingZero hoccurs
  rw [hfound, Option.bind_some, hpicked, Option.some.injEq] at hword
  subst hword
  have hnamed : named? ['0', '1', '2'] = some 12 := by decide +kernel
  rw [hnamed] at hn
  obtain rfl := Option.some.inj hn
  exact ⟨hoccurs, hiff.mpr (.inl (by simp))⟩

-- The digit is U+0663, the three of the Arabic-Indic digits.
def arabicThree : List Char := "add a modal with ٣ inputs".toList

theorem arabicThree_not_counted :
    (Phrase.inputCount.find? arabicThree).bind (·.picked) = some ['٣'] ∧ named? ['٣'] = some 3 ∧
      inputCount {} arabicThree = 6 := by
  decide +kernel

end Instruction

end Wireframe
