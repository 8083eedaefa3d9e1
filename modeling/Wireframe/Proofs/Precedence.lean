import Wireframe.Proofs.Clauses

namespace Wireframe

namespace Pattern

variable {p p' q q' : Pattern} {text : List Char}

-- What the first pattern spells is spelled by the second one too.
def Within (p q : Pattern) : Prop :=
  ∀ before part after, p.Spells before part after → q.Spells before part after

theorem Within.refl (p : Pattern) : p.Within p := fun _ _ _ h => h

theorem Within.append (hp : p.Within p') (hq : q.Within q') : (p ++ q).Within (p' ++ q') := by
  rintro before _ after ⟨front, back, rfl, hfront, hback⟩
  exact ⟨front, back, rfl, hp _ _ _ hfront, hq _ _ _ hback⟩

theorem Within.whole (hp : p.Within q) : (whole p).Within (whole q) :=
  ((Within.refl edge).append hp).append (.refl edge)

theorem Within.occursIn (hp : p.Within q) (h : p.occursIn text = true) :
    q.occursIn text = true := by
  obtain ⟨front, part, back, htext, hspells⟩ := occursIn_iff_spells.mp h
  exact occursIn_iff_spells.mpr ⟨front, part, back, htext, hp _ _ _ hspells⟩

theorem occursIn_of_occursIn_append (h : (p ++ q).occursIn text = true) :
    q.occursIn text = true := by
  obtain ⟨front, _, back, rfl, first, second, rfl, -, hq⟩ := occursIn_iff_spells.mp h
  refine occursIn_iff_spells.mpr ⟨front ++ first, second, back, by simp, ?_⟩
  rwa [List.getLast?_append]

end Pattern

namespace Instruction

open Pattern Phrase

variable {text clause : List Char}

theorem anyOccursIn_iff {patterns : List Pattern} :
    anyOccursIn patterns text = true ↔ ∃ p ∈ patterns, p.occursIn text = true :=
  List.any_eq_true

-- The phrases that make a general directive.
def generalPhrases : List Pattern := [
  lit "only" ++ blanks ++ (lit "one" ||| aSingle ||| lit "1") ++ blanks ++ lit "card",
  lit "nothing" ++ blanks ++ lit "else",
  lit "minimal" ++ opt (litOf ["ist", "istic", "ly"])]

-- Where "one card" and "nothing else" occur one after the other, "nothing else" occurs.
theorem general_iff_phrase :
    anyOccursIn generalDirectives text = true ↔
      ∃ p ∈ generalPhrases, (whole p).occursIn text = true := by
  simp only [anyOccursIn_iff, generalDirectives, generalPhrases, List.mem_cons, List.not_mem_nil,
    or_false, exists_eq_or_imp, exists_eq_left]
  constructor
  · rintro (honly | hgap | hnothing | hminimal)
    · exact .inl honly
    · exact .inr (.inl (occursIn_of_occursIn_append hgap))
    · exact .inr (.inl hnothing)
    · exact .inr (.inr hminimal)
  · rintro (honly | hnothing | hminimal)
    · exact .inl honly
    · exact .inr (.inr (.inl hnothing))
    · exact .inr (.inr (.inr hminimal))

theorem isPhrase_of_mem_generalPhrases : ∀ p ∈ generalPhrases, p.IsPhrase := by
  simp only [generalPhrases, List.forall_mem_cons]
  refine ⟨⟨?_, ?_, rfl⟩, ⟨?_, ?_, rfl⟩, ⟨?_, ?_, rfl⟩, List.forall_mem_nil _⟩
  · exact ((((opens_lit rfl).append _).append _).append _).append _
  · exact (closes_lit rfl).append _
  · exact ((opens_lit rfl).append _).append _
  · exact (closes_lit rfl).append _
  · exact (opens_lit rfl).append _
  · exact (closes_lit rfl).append_opt (closes_litOf (by decide))

-- A line break is a blank, and may stand between the words of a phrase.
theorem admits_eq_false_of_mem_generalPhrases {sign : Char} (hsign : isClauseEnd sign = true)
    (hbreak : sign ≠ '\n') : ∀ p ∈ generalPhrases, p.admits sign = false := by
  simp only [isClauseEnd, List.contains_iff_mem, List.mem_cons, List.not_mem_nil, or_false] at hsign
  simp only [generalPhrases, List.forall_mem_cons]
  rcases hsign with rfl | rfl | rfl | rfl | rfl
  · decide
  · decide
  · decide
  · decide
  · exact absurd rfl hbreak

-- A general directive does not go on from one clause to the next.
theorem general_iff_exists_clause (hline : '\n' ∉ text) :
    anyOccursIn generalDirectives text = true ↔
      ∃ clause ∈ clauses text, anyOccursIn generalDirectives clause = true := by
  have hphrase : ∀ p ∈ generalPhrases, (whole p).occursIn text = true ↔
      ∃ clause ∈ clauses text, (whole p).occursIn clause = true := by
    intro p hp
    apply occursIn_whole_iff_exists_clause (isPhrase_of_mem_generalPhrases p hp)
    intro x hx hsign
    exact admits_eq_false_of_mem_generalPhrases hsign (ne_of_mem_of_not_mem hx hline) p hp
  simp only [general_iff_phrase]
  constructor
  · rintro ⟨p, hp, hoccurs⟩
    obtain ⟨clause, hclause, hinside⟩ := (hphrase p hp).mp hoccurs
    exact ⟨clause, hclause, p, hp, hinside⟩
  · rintro ⟨clause, hclause, p, hp, hinside⟩
    exact ⟨p, hp, (hphrase p hp).mpr ⟨clause, hclause, hinside⟩⟩

-- What counts anywhere in a text counts at its end as well.
theorem final_of_general (h : anyOccursIn generalDirectives clause = true) :
    anyOccursIn finalDirectives clause = true := by
  have honly : (whole (lit "only" ++ blanks ++ (lit "one" ||| aSingle ||| lit "1") ++ blanks ++
      lit "card")).Within (whole (litOf ["only", "just"] ++ blanks ++
        (lit "one" ||| aSingle ||| lit "a" ||| lit "1") ++ blanks ++ lit "card")) := by
    have hfirst : (lit "only").Within (litOf ["only", "just"]) := fun _ _ _ h => .inl h
    have hcount : (lit "one" ||| aSingle ||| lit "1").Within
        (lit "one" ||| aSingle ||| lit "a" ||| lit "1") := by
      rintro before part after (h | h)
      · exact .inl (.inl h)
      · exact .inr h
    exact ((((hfirst.append (.refl _)).append hcount).append (.refl _)).append (.refl _)).whole
  rw [anyOccursIn_iff, finalDirectives]
  rw [general_iff_phrase] at h
  simp only [generalPhrases, List.mem_cons, List.not_mem_nil, or_false, exists_eq_or_imp,
    exists_eq_left] at h ⊢
  rcases h with h | h | h
  · exact .inr (.inl (honly.occursIn h))
  · exact .inl h
  · exact .inr (.inr (.inr (.inl h)))

def beforeLastTwo (clauses : List (List Char)) : List (List Char) :=
  clauses.take (clauses.length - 2)

theorem mem_iff_mem_lastTwo_or {clauses : List (List Char)} :
    clause ∈ clauses ↔ clause ∈ beforeLastTwo clauses ∨ clause ∈ lastTwo clauses := by
  rw [beforeLastTwo, lastTwo, ← List.mem_append, List.take_append_drop]

theorem three_le_length_of_mem {clauses : List (List Char)} (h : clause ∈ beforeLastTwo clauses) :
    3 ≤ clauses.length := by
  have hpos := List.length_pos_of_mem h
  rw [beforeLastTwo, List.length_take] at hpos
  omega

-- Where the last two clauses hold no final directive, a general one stands before them.
theorem general_iff_exists_before (hline : '\n' ∉ text)
    (hnone : ∀ clause ∈ lastTwo (clauses text), anyOccursIn finalDirectives clause = false) :
    anyOccursIn generalDirectives text = true ↔
      ∃ clause ∈ beforeLastTwo (clauses text), anyOccursIn generalDirectives clause = true := by
  rw [general_iff_exists_clause hline]
  constructor
  · rintro ⟨clause, hclause, hoccurs⟩
    rcases mem_iff_mem_lastTwo_or.mp hclause with hbefore | hlast
    · exact ⟨clause, hbefore, hoccurs⟩
    · exact absurd (final_of_general hoccurs) (by simp [hnone clause hlast])
  · rintro ⟨clause, hbefore, hoccurs⟩
    exact ⟨clause, mem_iff_mem_lastTwo_or.mpr (.inl hbefore), hoccurs⟩

-- The last two clauses have the final say. Without line breaks a text asks for a single card in
-- general exactly if some clause before them does and they do not.
theorem minimality?_by_position (text : List Char) :
    (requiresComplex text = true → minimality? text = none) ∧
    (requiresComplex text = false →
      ((∃ clause ∈ lastTwo (clauses text), anyOccursIn generalDirectives clause = true) →
        minimality? text = some .finalDirective) ∧
      ('\n' ∉ text →
        (minimality? text = some .general ↔
          3 ≤ (clauses text).length ∧
          (∃ clause ∈ beforeLastTwo (clauses text),
            anyOccursIn generalDirectives clause = true) ∧
          ∀ clause ∈ lastTwo (clauses text), anyOccursIn finalDirectives clause = false))) := by
  refine ⟨fun hcomplex => by rw [minimality?, if_pos hcomplex], fun hcomplex => ⟨?_, ?_⟩⟩
  · rintro ⟨clause, hclause, hgeneral⟩
    have hfinal : (lastTwo (clauses text)).any (anyOccursIn finalDirectives) = true :=
      List.any_eq_true.mpr ⟨clause, hclause, final_of_general hgeneral⟩
    rw [minimality?, hcomplex, if_neg Bool.false_ne_true, if_pos hfinal]
  · intro hline
    rw [minimality?, hcomplex, if_neg Bool.false_ne_true]
    by_cases hfinal : (lastTwo (clauses text)).any (anyOccursIn finalDirectives) = true
    · rw [if_pos hfinal]
      obtain ⟨clause, hclause, hoccurs⟩ := List.any_eq_true.mp hfinal
      simp only [Option.some.injEq, reduceCtorEq, false_iff]
      rintro ⟨-, -, hnone⟩
      exact Bool.false_ne_true ((hnone clause hclause).symm.trans hoccurs)
    · have hnone : ∀ clause ∈ lastTwo (clauses text),
          anyOccursIn finalDirectives clause = false := by simpa using hfinal
      have hgiven : (if anyOccursIn generalDirectives text = true then
          some MinimalitySource.general else none) = some .general ↔
            anyOccursIn generalDirectives text = true := by simp
      rw [if_neg hfinal, hgiven, general_iff_exists_before hline hnone]
      constructor
      · rintro ⟨clause, hbefore, hoccurs⟩
        exact ⟨three_le_length_of_mem hbefore, ⟨clause, hbefore, hoccurs⟩, hnone⟩
      · rintro ⟨-, hbefore, -⟩
        exact hbefore

-- Where a line may break within a phrase, a general directive may lie in no clause.
example : minimality? "nothing\nelse".toList = some .general ∧
    clauses "nothing\nelse".toList = ["nothing".toList, "else".toList] := by
  decide

end Instruction

end Wireframe
