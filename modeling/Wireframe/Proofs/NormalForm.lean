import Wireframe.Proofs.Cleaning

namespace Wireframe

namespace Text

-- A text that is made of these words, with blanks between any two of them and perhaps at its ends.
inductive HasWords : List Char → List (List Char) → Prop where
  | nil : HasWords [] []
  | blank {c : Char} {text : List Char} {ws : List (List Char)} :
    isBlank c = true → HasWords text ws → HasWords (c :: text) ws
  | word {w text : List Char} {ws : List (List Char)} :
    IsWord w → (∀ c ∈ text.head?, isBlank c = true) → HasWords text ws →
      HasWords (w ++ text) (w :: ws)

variable {text : List Char} {ws : List (List Char)}

theorem words_of_isWord {w : List Char} (hw : IsWord w) : words w = [w] := by
  obtain ⟨hne, hsolid⟩ := hw
  induction w with
  | nil => exact absurd rfl hne
  | cons c rest ih =>
    obtain ⟨hc, hrest⟩ := List.forall_mem_cons.mp hsolid
    cases rest with
    | nil => exact words_singleton hc
    | cons d rest =>
      rw [words_cons_cons hc (hrest d List.mem_cons_self), ih (List.cons_ne_nil d rest) hrest,
        List.modifyHead_cons]

theorem HasWords.eq_words (h : HasWords text ws) : ws = words text := by
  induction h with
  | nil => rfl
  | blank hblank _ ih => rw [words_cons_blank hblank, ih]
  | @word w text ws hw hnext _ ih =>
    cases text with
    | nil =>
      rw [List.append_nil, words_of_isWord hw, ih]
      rfl
    | cons c rest =>
      have hblank : isBlank c = true := hnext c rfl
      rw [words_append_blank hblank, words_of_isWord hw, ih, words_cons_blank hblank,
        List.singleton_append]

theorem hasWords_singleton {w : List Char} (hw : IsWord w) : HasWords w [w] := by
  have halone : HasWords (w ++ []) [w] := .word hw (by simp) .nil
  rwa [List.append_nil] at halone

-- A character in front of a text that begins with a word makes this word longer.
theorem HasWords.cons {c d : Char} (h : HasWords text ws) (hc : isBlank c = false)
    (hfirst : text.head? = some d) (hd : isBlank d = false) :
    HasWords (c :: text) (ws.modifyHead (c :: ·)) := by
  cases h with
  | nil => cases hfirst
  | blank hblank =>
    obtain rfl := Option.some.inj hfirst
    simp [hblank] at hd
  | @word w text ws hw hnext htext =>
    have hlonger : IsWord (c :: w) := ⟨List.cons_ne_nil c w, List.forall_mem_cons.mpr ⟨hc, hw.2⟩⟩
    exact .word hlonger hnext htext

theorem hasWords_words (text : List Char) : HasWords text (words text) := by
  induction text with
  | nil => exact .nil
  | cons c rest ih =>
    cases hc : isBlank c with
    | true =>
      rw [words_cons_blank hc]
      exact .blank hc ih
    | false =>
      have hword : IsWord [c] := ⟨List.cons_ne_nil c [], List.forall_mem_singleton.mpr hc⟩
      cases rest with
      | nil =>
        rw [words_singleton hc]
        exact hasWords_singleton hword
      | cons d rest =>
        cases hd : isBlank d with
        | true =>
          rw [words_cons_of_blank hc hd]
          exact .word hword (by simpa using hd) ih
        | false =>
          rw [words_cons_cons hc hd]
          exact ih.cons hc rfl hd

theorem hasWords_iff : HasWords text ws ↔ ws = words text :=
  ⟨HasWords.eq_words, fun h => h ▸ hasWords_words text⟩

theorem HasWords.mem_text {w : List Char} {c : Char} (h : HasWords text ws) (hw : w ∈ ws)
    (hc : c ∈ w) : c ∈ text := by
  induction h with
  | nil => cases hw
  | blank _ _ ih => exact List.mem_cons_of_mem _ (ih hw)
  | word _ _ _ ih =>
    rcases List.mem_cons.mp hw with rfl | hw
    · exact List.mem_append_left _ hc
    · exact List.mem_append_right _ (ih hw)

theorem hasWords_line (hws : ∀ w ∈ ws, IsWord w) : HasWords (line ws) ws := by
  induction ws with
  | nil => exact .nil
  | cons w rest ih =>
    obtain ⟨hw, hrest⟩ := List.forall_mem_cons.mp hws
    cases rest with
    | nil =>
      rw [line_singleton]
      exact hasWords_singleton hw
    | cons v rest =>
      rw [line_cons_cons]
      exact .word hw (by simp [isBlank]) (.blank rfl (ih hrest))

theorem mem_line {c : Char} (hc : c ∈ line ws) : c = ' ' ∨ ∃ w ∈ ws, c ∈ w := by
  induction ws with
  | nil => cases hc
  | cons w rest ih =>
    cases rest with
    | nil =>
      rw [line_singleton] at hc
      exact .inr ⟨w, List.mem_cons_self, hc⟩
    | cons v rest =>
      rw [line_cons_cons, List.mem_append, List.mem_cons] at hc
      rcases hc with hc | rfl | hc
      · exact .inr ⟨w, List.mem_cons_self, hc⟩
      · exact .inl rfl
      · obtain hspace | ⟨u, hu, hc⟩ := ih hc
        · exact .inl hspace
        · exact .inr ⟨u, List.mem_cons_of_mem w hu, hc⟩

-- A place between two parts of a text neither of which ends or begins with a blank there.
def BetweenWords (before after : List Char) : Prop :=
  (∃ b ∈ before.getLast?, isBlank b = false) ∧ ∃ a ∈ after.head?, isBlank a = false

structure Normal (text : List Char) : Prop where
  nonempty : text ≠ []
  visible : ∀ c ∈ text, isControl c = false ∧ isHidden c = false
  spaced : ∀ before c after, text = before ++ c :: after → isBlank c = true →
    c = ' ' ∧ BetweenWords before after

theorem IsWord.exists_getLast? {w : List Char} (hw : IsWord w) :
    ∃ b ∈ w.getLast?, isBlank b = false := by
  refine ⟨w.getLast hw.1, List.getLast?_eq_some_getLast hw.1, ?_⟩
  exact hw.2 _ (List.getLast_mem hw.1)

theorem exists_head?_line {w : List Char} (hw : IsWord w) (ws : List (List Char)) :
    ∃ a ∈ (line (w :: ws)).head?, isBlank a = false := by
  have hne : line (w :: ws) ≠ [] := line_ne_nil hw
  exact ⟨_, List.head?_eq_some_head hne, head?_line hw _ (List.head?_eq_some_head hne)⟩

-- The blanks of a line of words are the spaces between them.
theorem spaced_line (hws : ∀ w ∈ ws, IsWord w) {before after : List Char} {c : Char}
    (hsplit : line ws = before ++ c :: after) (hblank : isBlank c = true) :
    c = ' ' ∧ BetweenWords before after := by
  induction ws generalizing before with
  | nil => simp [line] at hsplit
  | cons w rest ih =>
    obtain ⟨hw, hrest⟩ := List.forall_mem_cons.mp hws
    have hnotWithin : c ∉ w := fun hc => by simp [hw.2 c hc] at hblank
    cases rest with
    | nil =>
      rw [line_singleton] at hsplit
      exact absurd (by simp [hsplit]) hnotWithin
    | cons v rest =>
      rw [line_cons_cons, List.append_eq_append_iff] at hsplit
      rcases hsplit with ⟨more, rfl, hmore⟩ | ⟨more, rfl, hmore⟩
      · cases more with
        | nil =>
          obtain ⟨rfl, rfl⟩ := List.cons.inj hmore
          rw [List.append_nil]
          exact ⟨rfl, hw.exists_getLast?, exists_head?_line (hrest v List.mem_cons_self) rest⟩
        | cons d more =>
          obtain ⟨rfl, hrestSplit⟩ := List.cons.inj hmore
          obtain ⟨hspace, ⟨b, hb, hsolid⟩, hafter⟩ := ih hrest hrestSplit
          refine ⟨hspace, ⟨b, ?_, hsolid⟩, hafter⟩
          have hne : more ≠ [] := by
            rintro rfl
            cases hb
          rwa [List.getLast?_append_of_ne_nil _ (List.cons_ne_nil _ _),
            List.getLast?_cons_of_ne_nil hne]
      · cases more with
        | nil =>
          obtain ⟨rfl, rfl⟩ := List.cons.inj hmore
          rw [List.append_nil] at hw
          exact ⟨rfl, hw.exists_getLast?, exists_head?_line (hrest v List.mem_cons_self) rest⟩
        | cons d more =>
          obtain ⟨rfl, -⟩ := List.cons.inj hmore
          exact absurd (by simp) hnotWithin

-- Nothing is collapsed where every blank is a space with something else behind it.
theorem collapse_eq_self
    (hspaced : ∀ before c after, text = before ++ c :: after → isBlank c = true →
      c = ' ' ∧ ∃ a ∈ after.head?, isBlank a = false) : collapse text = text := by
  induction text with
  | nil => rfl
  | cons c rest ih =>
    have hrest : collapse rest = rest := ih fun before d after hsplit =>
      hspaced (c :: before) d after (congrArg (c :: ·) hsplit)
    rw [collapse, hrest]
    cases hc : isBlank c with
    | false => rfl
    | true =>
      obtain ⟨rfl, a, ha, hsolid⟩ := hspaced [] c rest rfl hc
      have hnext : rest.head?.any isBlank = false := by
        rw [Option.mem_def.mp ha]
        exact hsolid
      rw [hnext]
      rfl

end Text

namespace Instruction

open Text

variable {text : List Char}

-- What is visible of a text holds nothing that is hidden and no control characters.
theorem visible_of_mem_visible {c : Char} (hc : c ∈ visible text) :
    isControl c = false ∧ isHidden c = false := by
  obtain ⟨d, hd, rfl⟩ := List.mem_map.mp hc
  have hshown : isHidden d = false := by simpa using (List.mem_filter.mp hd).2
  cases hcontrol : isControl d with
  | true => exact ⟨rfl, rfl⟩
  | false => exact ⟨hcontrol, hshown⟩

theorem visible_eq_self (h : ∀ c ∈ text, isControl c = false ∧ isHidden c = false) :
    visible text = text := by
  have hshown : (text.filter fun c => !isHidden c) = text :=
    List.filter_eq_self.mpr fun c hc => by simp [h c hc]
  have hplain : ∀ c ∈ text, (if isControl c then ' ' else c) = c := fun c hc => by simp [h c hc]
  rw [visible, hshown, List.map_congr_left hplain, List.map_id']

theorem oneLine_eq_line (text : List Char) : oneLine text = line (words (visible text)) :=
  trim_collapse (visible text)

-- A line of words is normal if the text that they come from has some.
theorem normal_oneLine (hne : oneLine text ≠ []) : Normal (oneLine text) := by
  have hline := oneLine_eq_line text
  have hws : ∀ w ∈ words (visible text), IsWord w := fun w => isWord_of_mem_words
  refine ⟨hne, fun c hc => ?_, fun before c after hsplit => ?_⟩
  · rw [hline] at hc
    rcases mem_line hc with rfl | ⟨w, hw, hc⟩
    · exact ⟨rfl, rfl⟩
    · exact visible_of_mem_visible ((hasWords_words _).mem_text hw hc)
  · rw [hline] at hsplit
    exact spaced_line hws hsplit

-- A normal text is on one line already.
theorem oneLine_eq_self (h : Normal text) : oneLine text = text := by
  have hcollapse : collapse text = text := by
    apply collapse_eq_self
    intro before c after hsplit hblank
    obtain ⟨hspace, -, hafter⟩ := h.spaced before c after hsplit hblank
    exact ⟨hspace, hafter⟩
  have hfirst : ∀ c ∈ text.head?, isBlank c = false := by
    intro c hc
    obtain ⟨rest, rfl⟩ := List.head?_eq_some_iff.mp hc
    by_contra hblank
    obtain ⟨-, ⟨b, hb, -⟩, -⟩ := h.spaced [] c rest rfl (eq_true_of_ne_false hblank)
    cases hb
  have hlast : ∀ c ∈ text.getLast?, isBlank c = false := by
    intro c hc
    obtain ⟨before, rfl⟩ := List.getLast?_eq_some_iff.mp hc
    by_contra hblank
    obtain ⟨-, -, a, ha, -⟩ := h.spaced before c [] rfl (eq_true_of_ne_false hblank)
    cases ha
  have htrim : trim ([] ++ text ++ []) = text :=
    trim_append_append (List.forall_mem_nil _) (List.forall_mem_nil _) h.nonempty hfirst hlast
  rw [List.nil_append, List.append_nil] at htrim
  rw [oneLine, visible_eq_self h.visible, hcollapse, htrim]

-- Cleaning leaves exactly the normal texts as they are that are not too long.
theorem clean_eq_self_iff {limits : Limits} :
    clean limits text = .ok text ↔ Normal text ∧ text.length ≤ limits.maxInputChars := by
  rw [clean_eq_ok_iff]
  constructor
  · rintro ⟨hne, hshort, hsame⟩
    have hnormal := normal_oneLine hne
    rw [hsame] at hnormal hshort
    exact ⟨hnormal, hshort⟩
  · rintro ⟨hnormal, hshort⟩
    rw [oneLine_eq_self hnormal]
    exact ⟨hnormal.nonempty, hshort, rfl⟩

-- What is cleaned is normal, short enough and made of the words that the text has when what is
-- hidden in it is dropped and control characters are blanks; cleaning it again changes nothing. A
-- text is refused if it has no words or too many characters are left.
theorem clean_normal_form (limits : Limits) (text : List Char) :
    ∃ ws, (∀ others, HasWords (visible text) others ↔ others = ws) ∧
      (∀ out, clean limits text = .ok out →
        Normal out ∧ out.length ≤ limits.maxInputChars ∧ HasWords out ws ∧
          clean limits out = .ok out) ∧
      ((∃ fault, clean limits text = .error fault) ↔
        ws = [] ∨ limits.maxInputChars < (line ws).length) := by
  have hws : ∀ w ∈ words (visible text), IsWord w := fun w => isWord_of_mem_words
  refine ⟨words (visible text), fun others => hasWords_iff, fun out hclean => ?_, ?_⟩
  · obtain ⟨hne, hshort, rfl⟩ := clean_eq_ok_iff.mp hclean
    have hnormal := normal_oneLine hne
    have hwords : HasWords (oneLine text) (words (visible text)) := by
      rw [oneLine_eq_line]
      exact hasWords_line hws
    exact ⟨hnormal, hshort, hwords, clean_eq_self_iff.mpr ⟨hnormal, hshort⟩⟩
  · have hempty : line (words (visible text)) = [] ↔ words (visible text) = [] := by
      cases hwords : words (visible text) with
      | nil => simp [line]
      | cons w ws => simp [line_ne_nil (hws w (hwords ▸ List.mem_cons_self))]
    have hrefused : (∃ fault, clean limits text = .error fault) ↔
        ¬ ∃ out, clean limits text = .ok out := by
      cases clean limits text <;> simp
    rw [hrefused, ← hempty, ← oneLine_eq_line]
    simp only [clean_eq_ok_iff, exists_and_left, exists_eq', and_true, not_and_or, not_not,
      Nat.not_le]

-- A wide space in front, a space without width inside a word, a bell and a tab between words.
def tangledText : List Char := "\u3000to\u200bday\x07\tonly\n".toList

theorem tangledText_cleaned :
    ∃ out, clean {} tangledText = .ok out ∧ out = "today only".toList ∧
      HasWords (visible tangledText) ["today".toList, "only".toList] ∧
      HasWords out ["today".toList, "only".toList] ∧ clean {} out = .ok out := by
  have hclean : clean {} tangledText = .ok "today only".toList := by decide
  obtain ⟨ws, hws, hcleaned, -⟩ := clean_normal_form {} tangledText
  obtain ⟨-, -, hwords, hagain⟩ := hcleaned _ hclean
  have hvisible : HasWords (visible tangledText) ["today".toList, "only".toList] :=
    hasWords_iff.mpr (by decide)
  obtain rfl := (hws _).mp hvisible
  exact ⟨_, hclean, rfl, hvisible, hwords, hagain⟩

end Instruction

end Wireframe
