import Mathlib.Data.List.Basic
import Mathlib.Data.List.TakeWhile
import Wireframe.Instruction.Cleaning

namespace Wireframe

namespace Text

theorem wordsGo_cons (word : List Char) (c : Char) (rest : List Char) :
    words.go word (c :: rest) =
      if isBlank c then words.flush word ++ words rest else words.go (c :: word) rest := by
  rw [words.go]
  rfl

theorem flush_eq {word : List Char} (hword : word ≠ []) : words.flush word = [word.reverse] := by
  simp [words.flush, hword]

-- A blank ends the word before it, wherever it stands.
theorem wordsGo_append_blank {c : Char} (hblank : isBlank c = true)
    (word before after : List Char) :
    words.go word (before ++ c :: after) = words.go word before ++ words after := by
  induction before generalizing word with
  | nil => rw [List.nil_append, wordsGo_cons, if_pos hblank, words.go]
  | cons d rest ih =>
    rw [List.cons_append, wordsGo_cons, wordsGo_cons]
    cases isBlank d with
    | true =>
      rw [if_pos rfl, if_pos rfl, List.append_assoc]
      exact congrArg (words.flush word ++ ·) (ih [])
    | false => rw [if_neg Bool.false_ne_true, if_neg Bool.false_ne_true, ih]

theorem words_append_blank {c : Char} (hblank : isBlank c = true) (before after : List Char) :
    words (before ++ c :: after) = words before ++ words after :=
  wordsGo_append_blank hblank [] before after

theorem words_cons_blank {c : Char} (hblank : isBlank c = true) (text : List Char) :
    words (c :: text) = words text :=
  words_append_blank hblank [] text

-- What has been read of a word before is in front of it.
theorem wordsGo_append {word : List Char} (hword : word ≠ []) (earlier text : List Char) :
    words.go (word ++ earlier) text = (words.go word text).modifyHead (earlier.reverse ++ ·) := by
  induction text generalizing word with
  | nil =>
    rw [words.go, words.go, flush_eq hword, flush_eq (List.append_ne_nil_of_left_ne_nil hword _),
      List.modifyHead_cons, List.reverse_append]
  | cons c rest ih =>
    rw [wordsGo_cons, wordsGo_cons]
    cases isBlank c with
    | true =>
      rw [if_pos rfl, if_pos rfl, flush_eq hword,
        flush_eq (List.append_ne_nil_of_left_ne_nil hword _), List.singleton_append,
        List.singleton_append, List.modifyHead_cons, List.reverse_append]
    | false =>
      rw [if_neg Bool.false_ne_true, if_neg Bool.false_ne_true, ← List.cons_append]
      exact ih (List.cons_ne_nil c word)

theorem words_singleton {c : Char} (hsolid : isBlank c = false) : words [c] = [[c]] := by
  rw [words, wordsGo_cons, if_neg (by simp [hsolid])]
  rfl

theorem wordsGo_ne_nil {word : List Char} (hword : word ≠ []) (text : List Char) :
    words.go word text ≠ [] := by
  induction text generalizing word with
  | nil => simp [words.go, flush_eq hword]
  | cons c rest ih =>
    rw [wordsGo_cons]
    cases isBlank c with
    | true => simp [flush_eq hword]
    | false => exact ih (List.cons_ne_nil c word)

theorem words_cons_ne_nil {c : Char} (hsolid : isBlank c = false) (rest : List Char) :
    words (c :: rest) ≠ [] := by
  rw [words, wordsGo_cons, if_neg (by simp [hsolid])]
  exact wordsGo_ne_nil (List.cons_ne_nil c []) rest

-- A character in front of a word becomes a part of it.
theorem words_cons_cons {c d : Char} (hsolid : isBlank c = false) (hsolid' : isBlank d = false)
    (rest : List Char) : words (c :: d :: rest) = (words (d :: rest)).modifyHead (c :: ·) := by
  have hjoin := wordsGo_append (List.cons_ne_nil d []) [c] rest
  rw [words, words, wordsGo_cons, wordsGo_cons, wordsGo_cons, if_neg (by simp [hsolid]),
    if_neg (by simp [hsolid']), if_neg (by simp [hsolid'])]
  exact hjoin

-- In front of a blank it is a word of its own.
theorem words_cons_of_blank {c d : Char} (hsolid : isBlank c = false) (hblank : isBlank d = true)
    (rest : List Char) : words (c :: d :: rest) = [c] :: words (d :: rest) := by
  have hsplit := words_append_blank hblank [c] rest
  rwa [words_singleton hsolid, ← words_cons_blank hblank rest] at hsplit

-- Words are not empty, and there are no blanks in them.
def IsWord (word : List Char) : Prop := word ≠ [] ∧ ∀ c ∈ word, isBlank c = false

theorem isWord_of_mem_go {word text : List Char} (hsolid : ∀ c ∈ word, isBlank c = false) :
    ∀ w ∈ words.go word text, IsWord w := by
  have hflush : ∀ w ∈ words.flush word, IsWord w := by
    cases word with
    | nil => simp [words.flush]
    | cons d rest =>
      rw [flush_eq (List.cons_ne_nil d rest), List.forall_mem_singleton]
      exact ⟨by simp, fun c hc => hsolid c (List.mem_reverse.mp hc)⟩
  induction text generalizing word with
  | nil => exact hflush
  | cons c rest ih =>
    intro w hw
    rw [wordsGo_cons] at hw
    cases hc : isBlank c with
    | true =>
      rw [hc, if_pos rfl, List.mem_append] at hw
      exact hw.elim (hflush w) (ih (by simp) (by simp [words.flush]) w)
    | false =>
      rw [hc, if_neg Bool.false_ne_true] at hw
      have hlonger : ∀ d ∈ c :: word, isBlank d = false := List.forall_mem_cons.mpr ⟨hc, hsolid⟩
      refine ih hlonger ?_ w hw
      rw [flush_eq (List.cons_ne_nil c word), List.forall_mem_singleton]
      exact ⟨by simp, fun d hd => hlonger d (List.mem_reverse.mp hd)⟩

theorem isWord_of_mem_words {text w : List Char} (hw : w ∈ words text) : IsWord w :=
  isWord_of_mem_go (by simp) w hw

-- Every run of blanks becomes a single space.
def collapse : List Char → List Char
  | [] => []
  | c :: rest =>
    if isBlank c then
      if rest.head?.any isBlank then collapse rest else ' ' :: collapse rest
    else c :: collapse rest

-- Words with single spaces between them.
def line (ws : List (List Char)) : List Char := [' '].intercalate ws

theorem line_singleton (w : List Char) : line [w] = w := List.intercalate_singleton

theorem line_cons_cons (w v : List Char) (rest : List (List Char)) :
    line (w :: v :: rest) = w ++ ' ' :: line (v :: rest) := by
  rw [line, List.intercalate_cons_cons, List.append_assoc, List.singleton_append, line]

-- Collapsing leaves the words, a space in front if the text begins with a blank, and a space at the
-- end, or not.
theorem exists_collapse_eq (text : List Char) :
    ∃ back, (back = [] ∨ back = [' ']) ∧ (words text = [] → back = []) ∧
      collapse text =
        (if text.head?.any isBlank then [' '] else []) ++ line (words text) ++ back := by
  induction text with
  | nil => exact ⟨[], .inl rfl, fun _ => rfl, rfl⟩
  | cons c rest ih =>
    obtain ⟨back, hback, hnone, hrest⟩ := ih
    cases hc : isBlank c with
    | true =>
      refine ⟨back, hback, fun h => hnone (words_cons_blank hc rest ▸ h), ?_⟩
      rw [collapse, words_cons_blank hc, List.head?_cons, Option.any_some, hc, if_pos rfl,
        if_pos rfl]
      cases hnext : rest.head?.any isBlank with
      | true => rw [if_pos rfl, hrest, hnext, if_pos rfl]
      | false => rw [if_neg Bool.false_ne_true, hrest, hnext]; rfl
    | false =>
      rw [collapse, List.head?_cons, Option.any_some, hc, if_neg Bool.false_ne_true,
        if_neg Bool.false_ne_true, List.nil_append, hrest]
      cases rest with
      | nil => exact ⟨[], .inl rfl, fun _ => rfl, by rw [words_singleton hc, hnone rfl]; rfl⟩
      | cons d rest =>
        rw [List.head?_cons, Option.any_some]
        cases hd : isBlank d with
        | true =>
          -- the space behind `c` is at the end if no word follows
          rw [words_cons_of_blank hc hd, if_pos rfl]
          cases hws : words (d :: rest) with
          | nil => exact ⟨[' '], .inr rfl, nofun, by rw [hnone hws]; rfl⟩
          | cons w ws => exact ⟨back, hback, nofun, by rw [line_cons_cons]; rfl⟩
        | false =>
          rw [words_cons_cons hc hd, if_neg Bool.false_ne_true]
          cases hws : words (d :: rest) with
          | nil => exact absurd hws (words_cons_ne_nil hd rest)
          | cons w ws =>
            refine ⟨back, hback, nofun, ?_⟩
            cases ws with
            | nil => rfl
            | cons v ws => rw [List.modifyHead_cons, line_cons_cons, line_cons_cons]; rfl

theorem dropWhile_isBlank {text : List Char} (hfirst : ∀ c ∈ text.head?, isBlank c = false) :
    text.dropWhile isBlank = text := by
  cases text with
  | nil => rfl
  | cons c rest => exact List.dropWhile_cons_of_neg (by simp [hfirst c rfl])

-- Trimming takes the blanks around a text that neither begins nor ends with one.
theorem trim_append_append {front back : List Char} (hfront : ∀ c ∈ front, isBlank c = true)
    (hback : ∀ c ∈ back, isBlank c = true) {text : List Char} (hne : text ≠ [])
    (hfirst : ∀ c ∈ text.head?, isBlank c = false)
    (hlast : ∀ c ∈ text.getLast?, isBlank c = false) : trim (front ++ text ++ back) = text := by
  have hstart : trimStart (front ++ text ++ back) = text ++ back := by
    rw [trimStart, List.append_assoc, List.dropWhile_append_of_pos hfront, dropWhile_isBlank]
    rwa [List.head?_append_of_ne_nil text hne]
  have hback' : ∀ c ∈ back.reverse, isBlank c = true := fun c hc =>
    hback c (List.mem_reverse.mp hc)
  rw [trim, hstart, trimEnd, List.reverse_append, List.dropWhile_append_of_pos hback',
    dropWhile_isBlank (by rwa [List.head?_reverse]), List.reverse_reverse]

theorem trim_eq_nil {text : List Char} (hblank : ∀ c ∈ text, isBlank c = true) :
    trim text = [] := by
  rw [trim, trimStart, List.dropWhile_eq_nil_iff.mpr hblank]
  rfl

-- A line of words is not empty, and neither begins nor ends with a blank.
theorem line_ne_nil {w : List Char} {ws : List (List Char)} (hw : IsWord w) :
    line (w :: ws) ≠ [] := by
  cases ws with
  | nil => rw [line_singleton]; exact hw.1
  | cons v ws => simp [line_cons_cons]

theorem head?_line {w : List Char} {ws : List (List Char)} (hw : IsWord w) :
    ∀ c ∈ (line (w :: ws)).head?, isBlank c = false := by
  intro c hc
  have hmem : (line (w :: ws)).head? = w.head? := by
    cases ws with
    | nil => rw [line_singleton]
    | cons v ws => rw [line_cons_cons, List.head?_append_of_ne_nil w hw.1]
  rw [hmem] at hc
  exact hw.2 c (List.mem_of_head? hc)

theorem getLast?_line {w : List Char} {ws : List (List Char)} (hws : ∀ v ∈ w :: ws, IsWord v) :
    ∀ c ∈ (line (w :: ws)).getLast?, isBlank c = false := by
  induction ws generalizing w with
  | nil =>
    rw [line_singleton]
    exact fun c hc => (hws w List.mem_cons_self).2 c (List.mem_of_getLast? hc)
  | cons v ws ih =>
    have htail : ∀ u ∈ v :: ws, IsWord u := (List.forall_mem_cons.mp hws).2
    rw [line_cons_cons, List.getLast?_append_of_ne_nil _ (List.cons_ne_nil _ _),
      List.getLast?_cons_of_ne_nil (line_ne_nil (htail v List.mem_cons_self))]
    exact ih htail

-- Joining the words and tidying in place come to the same.
theorem trim_collapse (text : List Char) : trim (collapse text) = line (words text) := by
  obtain ⟨back, hback, -, htext⟩ := exists_collapse_eq text
  rw [htext]
  have hws : ∀ w ∈ words text, IsWord w := fun w => isWord_of_mem_words
  have hfront : ∀ c ∈ if text.head?.any isBlank then [' '] else [], isBlank c = true := by
    split <;> simp [isBlank]
  have hback : ∀ c ∈ back, isBlank c = true := by
    obtain rfl | rfl := hback <;> simp [isBlank]
  cases hwords : words text with
  | nil =>
    refine trim_eq_nil fun c hc => ?_
    rw [List.append_assoc, List.mem_append] at hc
    exact hc.elim (hfront c) (hback c)
  | cons w ws =>
    rw [hwords] at hws
    exact trim_append_append hfront hback (line_ne_nil (hws w List.mem_cons_self))
      (head?_line (hws w List.mem_cons_self)) (getLast?_line hws)

end Text

namespace Instruction

-- The text without its hidden characters, with control characters turned into spaces, runs of
-- blanks collapsed and the ends trimmed.
def oneLine (text : List Char) : List Char := Text.trim (Text.collapse (visible text))

theorem tidy_eq_oneLine (text : List Char) : tidy text = oneLine text :=
  (Text.trim_collapse (visible text)).symm

theorem clean_eq_ok_iff {limits : Limits} {text cleaned : List Char} :
    clean limits text = .ok cleaned ↔
      oneLine text ≠ [] ∧ (oneLine text).length ≤ limits.maxInputChars ∧
        oneLine text = cleaned := by
  simp only [clean, tidy_eq_oneLine]
  split
  · next hempty => simp [List.isEmpty_iff.mp hempty]
  · next hfull =>
    split
    · next hlong => simp [Nat.not_le.mpr hlong]
    · next hshort =>
      rw [List.isEmpty_iff] at hfull
      simp [hfull, Nat.not_lt.mp hshort]

end Instruction

end Wireframe
