import Wireframe.Instruction.Concept
import Wireframe.Proofs.Matching

namespace Wireframe

namespace Text

-- What folds to an ASCII letter or digit is a word character.
theorem isWord_of_fold {x c : Char} (hfold : fold x = c) (hc : c.isAlphanum = true) :
    isWord x = true := by
  rw [fold] at hfold
  split at hfold
  · next h =>
    obtain rfl : x = Char.ofNat 0x17F := by rw [← beq_iff_eq.mp h, Char.ofNat_toNat]
    decide
  · split at hfold
    · next h =>
      obtain rfl : x = Char.ofNat 0x212A := by rw [← beq_iff_eq.mp h, Char.ofNat_toNat]
      decide
    · have hx : x.isAlphanum = true := by
        cases hupper : x.isUpper with
        | true =>
          have hkinds : x.isAlphanum = (x.isUpper || x.isLower || x.isDigit) := rfl
          rw [hkinds, hupper]
          rfl
        | false =>
          have hsame : x.toLower = x := dif_neg (of_decide_eq_false hupper)
          rwa [← hsame, hfold]
      rw [isWord, isAsciiWord, hx]
      rfl

theorem not_isWord_of_isBlank {x : Char} (h : isBlank x = true) : isWord x = false := by
  have hall : ∀ n ∈ [0x09, 0x0A, 0x0B, 0x0C, 0x0D, 0x20, 0x85, 0xA0, 0x1680, 0x2000, 0x2001,
      0x2002, 0x2003, 0x2004, 0x2005, 0x2006, 0x2007, 0x2008, 0x2009, 0x200A, 0x2028, 0x2029,
      0x202F, 0x205F, 0x3000], isWord (Char.ofNat n) = false := by
    decide
  have hx := hall x.toNat (by
    simp only [isBlank, Bool.or_eq_true, Bool.and_eq_true, decide_eq_true_eq, beq_iff_eq] at h
    simp only [List.mem_cons, List.not_mem_nil, or_false]
    omega)
  rwa [Char.ofNat_toNat] at hx

end Text

namespace Instruction

open Pattern

-- A keyword begins with a letter or a digit.
theorem isAlphanum_of_mem_keywords (concept : Concept) :
    ∀ k ∈ concept.keywords, ∃ c rest, k.toList = c :: rest ∧ c.isAlphanum = true := by
  have hall : ∀ k ∈ concept.keywords, k.toList.head?.any Char.isAlphanum = true := by
    cases concept <;> decide
  intro k hk
  cases hk' : k.toList with
  | nil => simpa [hk'] using hall k hk
  | cons c rest => exact ⟨c, rest, rfl, by simpa [hk'] using hall k hk⟩

theorem exists_word_of_mem_ends_keywordOf {concept : Concept} {c e : Cursor}
    (h : e ∈ (keywordOf concept.keywords).ends c) :
    ∃ x rest, c.after = x :: rest ∧ Text.isWord x = true := by
  obtain ⟨mid, hmid, -⟩ := mem_ends_append.mp h
  obtain ⟨p, hp, hmid⟩ := mem_ends_anyOf.mp hmid
  obtain ⟨k, hk, rfl⟩ := List.mem_map.mp hp
  obtain ⟨first, rest, hletters, hfirst⟩ := isAlphanum_of_mem_keywords concept k hk
  have hblank : (first == ' ') = false := by
    rw [beq_eq_false_iff_ne]
    rintro rfl
    cases hfirst
  rw [keyword, hletters, keywordLetters, hblank] at hmid
  obtain ⟨mid, hmid, -⟩ := mem_ends_append.mp hmid
  obtain ⟨x, after, hafter, hx, -⟩ := mem_ends_one.mp hmid
  exact ⟨x, after, hafter, Text.isWord_of_fold (beq_iff_eq.mp hx) hfirst⟩

-- Between a blank and the first letter of a keyword there is a word edge.
theorem atEdge_of_blank {c : Cursor} (hblank : ∃ b, c.before = some b ∧ Text.isBlank b = true)
    (hword : ∃ x rest, c.after = x :: rest ∧ Text.isWord x = true) : c.atEdge = true := by
  obtain ⟨b, hb, hblank⟩ := hblank
  obtain ⟨x, rest, hafter, hword⟩ := hword
  simp [Cursor.atEdge, hb, hafter, hword, Text.not_isWord_of_isBlank hblank]

-- An exclusion ends with a mention of what it excludes.
theorem mentions_of_excludes {text : List Char} {concept : Concept}
    (hconcept : concept ≠ .twoColumns) (h : excludes text concept = true) :
    mentions text concept = true := by
  have hexclusion : (Phrase.exclusion concept).occursIn text = true := by
    cases concept with
    | twoColumns => exact absurd rfl hconcept
    | _ => exact h
  obtain ⟨c, hc, e, he⟩ := occursIn_iff.mp hexclusion
  obtain ⟨last, hkeyword, hend⟩ := mem_ends_append.mp he
  obtain ⟨first, hfirst, hkeyword⟩ := mem_ends_append.mp hkeyword
  have hblank : ∃ b, first.before = some b ∧ Text.isBlank b = true := by
    obtain ⟨mid, hmid, hopt⟩ := mem_ends_append.mp hfirst
    rcases mem_ends_opt.mp hopt with harticle | rfl
    · obtain ⟨_, -, hblanks⟩ := mem_ends_append.mp harticle
      exact before_of_mem_ends_some1 hblanks
    · obtain ⟨_, -, hblanks⟩ := mem_ends_append.mp hmid
      exact before_of_mem_ends_some1 hblanks
  have hedge := atEdge_of_blank hblank (exists_word_of_mem_ends_keywordOf hkeyword)
  refine occursIn_iff.mpr ⟨first, hc.trans (leads_of_mem_ends rfl hfirst), e, ?_⟩
  rw [Phrase.mention, whole, mem_ends_append]
  exact ⟨last, mem_ends_append.mpr ⟨first, mem_ends_edge.mpr ⟨hedge, rfl⟩, hkeyword⟩, hend⟩

theorem excludes_eq_false_of_requires {text : List Char} {concept : Concept}
    (h : requires text concept = true) : excludes text concept = false := by
  rw [requires, Bool.and_eq_true, Bool.not_eq_true'] at h
  exact h.2

namespace Features

variable {text : List Char} {concept : Concept}

theorem has_ofText (text : List Char) (concept : Concept) :
    (ofText text).has concept = requires text concept := by
  have hall : concept ∈ Concept.all := by cases concept <;> decide
  rw [Bool.eq_iff_iff]
  simp [has, ofText, List.partition_eq_filter_filter, requires, hall, and_comm]

theorem lacks_ofText (text : List Char) (concept : Concept) :
    (ofText text).lacks concept = (mentions text concept && excludes text concept) := by
  have hall : concept ∈ Concept.all := by cases concept <;> decide
  rw [Bool.eq_iff_iff]
  simp [lacks, ofText, List.partition_eq_filter_filter, hall, and_comm]

-- An exclusion also mentions what it excludes, so that it is not overlooked.
theorem lacks_ofText_of_ne (hconcept : concept ≠ .twoColumns) :
    (ofText text).lacks concept = excludes text concept := by
  rw [lacks_ofText]
  by_cases h : excludes text concept = true
  · simp [h, mentions_of_excludes hconcept h]
  · simp [h]

-- What the features of a text are to be: the concepts that it mentions, each once and in their order,
-- on one side those that it excludes and on the other those that it does not.
structure SortedFrom (text : List Char) (features : Features) : Prop where
  required : features.required = Concept.all.filter (requires text)
  excluded : features.excluded =
    Concept.all.filter fun concept => mentions text concept && excludes text concept
  disjoint : features.required.Disjoint features.excluded
  union : ∀ concept, concept ∈ features.required ∨ concept ∈ features.excluded ↔
    mentions text concept = true
  lacks : ∀ concept, concept ≠ .twoColumns →
    (features.lacks concept = true ↔ excludes text concept = true)

theorem mem_required_ofText :
    concept ∈ (ofText text).required ↔ requires text concept = true := by
  rw [← has_ofText, has, List.contains_iff_mem]

theorem mem_excluded_ofText :
    concept ∈ (ofText text).excluded ↔
      mentions text concept = true ∧ excludes text concept = true := by
  rw [← Bool.and_eq_true, ← lacks_ofText, Features.lacks, List.contains_iff_mem]

-- No exclusion is lost when the concepts that are not mentioned are left out.
theorem ofText_keeps_exclusions (text : List Char) :
    (∀ concept, concept ≠ .twoColumns →
      excludes text concept = true → mentions text concept = true) ∧
    (ofText text).SortedFrom text := by
  refine ⟨fun _ hconcept => mentions_of_excludes hconcept, ?_, ?_, ?_, ?_, ?_⟩
  · simp only [ofText, List.partition_eq_filter_filter, List.filter_filter]
    exact List.filter_congr fun concept _ => Bool.and_comm ..
  · simp only [ofText, List.partition_eq_filter_filter, List.filter_filter]
    exact List.filter_congr fun concept _ => Bool.and_comm ..
  · intro concept hrequired hexcluded
    have hkept := excludes_eq_false_of_requires (mem_required_ofText.mp hrequired)
    rw [(mem_excluded_ofText.mp hexcluded).2] at hkept
    cases hkept
  · intro concept
    rw [mem_required_ofText, mem_excluded_ofText, requires]
    by_cases h : excludes text concept = true <;> simp [h]
  · intro concept hconcept
    rw [lacks_ofText_of_ne hconcept]

-- Any "remove" excludes two columns, which goes unnoticed where they are not mentioned.
example : excludes "remove the chart".toList .twoColumns = true ∧
    (ofText "remove the chart".toList).lacks .twoColumns = false := by
  decide

end Features

end Instruction

end Wireframe
