import Wireframe.Proofs.Demands
import Wireframe.Proofs.Seams

namespace Wireframe.Instruction

open Pattern

variable {a b : List Char}

-- A word between two clauses.
def conjunctionWord : Pattern := whole (litOf ["and", "then", "also", "plus"])

theorem conjunction_eq : Phrase.conjunction = (some1 Phrase.isPunctuation ||| conjunctionWord) := rfl

theorem stops_conjunctionWord (more : List Char) : conjunctionWord.Stops ('.' :: more) := by
  intro x hx
  obtain rfl := Option.some.inj hx
  decide

-- Neither a word nor punctuation begins at a blank behind a full stop.
theorem front?_blank (b : List Char) : Phrase.conjunction.front? (some '.') (' ' :: b) = none := by
  have hsides : (some '.').any Text.isWord = (some ' ').any Text.isWord := by decide
  rw [conjunction_eq, front?_of_not_mem _ _ (by decide), Option.eq_none_iff_forall_not_mem]
  intro e he
  obtain ⟨found, hfound, hspells⟩ := spells_of_front? he
  obtain ⟨hedge, -⟩ := spells_whole.mp hspells
  rw [← hfound] at hedge
  exact hedge hsides

theorem trim_blank (piece : List Char) : Text.trim (' ' :: piece) = Text.trim piece := rfl

-- The blank behind the full stop is trimmed away.
theorem map_trim_piecesFrom_blank (b : List Char) :
    (Phrase.conjunction.piecesFrom 0 [] (some '.') (' ' :: b)).map Text.trim =
      (Phrase.conjunction.pieces b).map Text.trim := by
  have hword : (some ' ').any Text.isWord = (none : Option Char).any Text.isWord := by decide
  have hpass : Phrase.conjunction.piecesFrom 0 [] (some '.') (' ' :: b) =
      Phrase.conjunction.piecesFrom 0 [' '] (some ' ') b :=
    piecesFrom_pass (by simp [front?_blank])
  rw [hpass, piecesFrom_congr hword, ← List.nil_append [' '], piecesFrom_append, pieces]
  cases Phrase.conjunction.piecesFrom 0 [] none b with
  | nil => rfl
  | cons piece rest => simp [trim_blank]

theorem piecesBetween_joined (a b : List Char) :
    piecesBetween Phrase.conjunction (a ++ ". ".toList ++ b) =
      piecesBetween Phrase.conjunction a ++ piecesBetween Phrase.conjunction b := by
  have htext : a ++ ". ".toList ++ b = a ++ '.' :: ' ' :: b := by simp
  have hblank : ∀ x ∈ (' ' :: b).head?, Phrase.isPunctuation x = false := by
    intro x hx
    obtain rfl := Option.some.inj hx
    decide
  obtain ⟨front, hfirst, hjoined⟩ :=
    exists_piecesFrom_seam (by decide) (stops_conjunctionWord (' ' :: b)) hblank [] none a
  rw [← conjunction_eq] at hfirst hjoined
  -- a piece that is cut off by a run of punctuation is empty
  have hpieces : ((Phrase.conjunction.pieces a).map Text.trim).filter (fun piece => !piece.isEmpty) =
      (front.map Text.trim).filter fun piece => !piece.isEmpty := by
    rw [pieces]
    rcases hfirst with h | h
    · rw [h]
    · rw [h, List.map_append, List.filter_append]
      exact List.append_nil _
  rw [htext, piecesBetween, piecesBetween, piecesBetween, hpieces, ← map_trim_piecesFrom_blank b,
    pieces, hjoined, List.map_append, List.filter_append]

theorem isSome_verb?_iff {clause : List Char} :
    (verb? clause).isSome = true ↔
      Phrase.removing.occursIn clause = true ∨ Phrase.adding.occursIn clause = true := by
  rw [verb?, occursIn, occursIn]
  cases Phrase.removing.find? clause with
  | none => cases Phrase.adding.find? clause <;> simp
  | some removing =>
    cases Phrase.adding.find? clause with
    | none => simp
    | some adding => by_cases h : adding.start < removing.start <;> simp [h]

-- A verb counts for the clauses up to the next verb.
theorem voiced_append {first second : List (List Char)}
    (h : ∃ clause ∈ second.head?, (verb? clause).isSome = true) (verb : Option Verb) :
    voiced verb (first ++ second) = voiced verb first ++ voiced none second := by
  induction first generalizing verb with
  | nil =>
    obtain ⟨clause, hclause, hverb⟩ := h
    obtain ⟨rest, rfl⟩ := List.head?_eq_some_iff.mp hclause
    obtain ⟨own, hown⟩ := Option.isSome_iff_exists.mp hverb
    simp [voiced, hown]
  | cons clause rest ih =>
    rw [List.cons_append, voiced, voiced]
    cases (verb? clause).or verb with
    | none => exact ih none
    | some verb => simp [ih]

-- The first clause that is not empty has a verb.
def FirstClauseHasVerb (text : List Char) : Prop :=
  ∃ clause ∈ (piecesBetween Phrase.conjunction text).head?,
    Phrase.removing.occursIn clause = true ∨ Phrase.adding.occursIn clause = true

theorem demands_joined (hverb : FirstClauseHasVerb b) (verb : Verb) (a : List Char) :
    demands verb (a ++ ". ".toList ++ b) = demands verb a ++ demands verb b := by
  simp only [FirstClauseHasVerb, ← isSome_verb?_iff] at hverb
  rw [demands, piecesBetween_joined, voiced_append hverb, demandsOf_append, demands, demands]

theorem removals_joined (hverb : FirstClauseHasVerb b) (limits : Limits) (a : List Char) :
    (request limits (a ++ ". ".toList ++ b)).removals =
      (request limits a).removals ++
        (request limits b).removals.filter fun kind => !(request limits a).removals.contains kind := by
  rw [removals_request, removals_request, removals_request, demands_joined hverb,
    Ledger.eraseDups_append_filter]
  simp only [List.contains_eq_mem, List.mem_eraseDups]

-- What only one of the sentences removes is taken out of the additions of the other as well.
theorem kinds_joined (hverb : FirstClauseHasVerb b) (limits : Limits) (a : List Char) :
    (request limits (a ++ ". ".toList ++ b)).kinds =
      ((request limits a).kinds ++ (request limits b).kinds).eraseDups.filter fun kind =>
        !(request limits (a ++ ". ".toList ++ b)).removals.contains kind := by
  rw [removals_request, kinds_request, kinds_request, kinds_request, demands_joined hverb,
    demands_joined hverb]
  refine Eq.trans ?_ (Ledger.filter_eraseDups_append ?_ ?_ ..).symm
  · simp only [List.contains_eq_mem, List.mem_eraseDups]
  · simp +contextual
  · simp +contextual

-- Neither sentence changes what the other demands; only what one of them removes is not added by either.
theorem request_joined (limits : Limits) (a b : List Char) (hverb : FirstClauseHasVerb b) :
    (request limits (a ++ ". ".toList ++ b)).removals =
        (request limits a).removals ++
          ((request limits b).removals.filter fun kind =>
            !(request limits a).removals.contains kind) ∧
      (request limits (a ++ ". ".toList ++ b)).kinds =
        (((request limits a).kinds ++ (request limits b).kinds).eraseDups.filter fun kind =>
          !(request limits (a ++ ". ".toList ++ b)).removals.contains kind) ∧
      ∀ kind, kind ∈ (request limits a).removals ∨ kind ∈ (request limits b).removals →
        kind ∉ (request limits (a ++ ". ".toList ++ b)).kinds := by
  have hremovals := removals_joined hverb limits a
  have hkinds := kinds_joined hverb limits a
  refine ⟨hremovals, hkinds, ?_⟩
  intro kind hremoved hmem
  rw [hkinds, hremovals] at hmem
  have hkept := (List.mem_filter.mp hmem).2
  by_cases ha : kind ∈ (request limits a).removals
  · simp [ha] at hkept
  · simp [ha, hremoved.resolve_left ha] at hkept

-- The table is added by the first sentence and removed by the second.
def crossedSentences : List Char × List Char :=
  ("add a table and a chart".toList, "remove the table".toList)

theorem crossedSentences_joined :
    FirstClauseHasVerb crossedSentences.2 ∧
      (request {} (crossedSentences.1 ++ ". ".toList ++ crossedSentences.2)).removals = [.table] ∧
      (request {} (crossedSentences.1 ++ ". ".toList ++ crossedSentences.2)).kinds = [.chart] := by
  have hverb : FirstClauseHasVerb crossedSentences.2 :=
    ⟨crossedSentences.2, by decide +kernel, .inl (by decide +kernel)⟩
  have hfirst : (request {} crossedSentences.1).removals = [] ∧
      (request {} crossedSentences.1).kinds = [.table, .chart] := by
    decide +kernel
  have hsecond : (request {} crossedSentences.2).removals = [.table] ∧
      (request {} crossedSentences.2).kinds = [] := by
    decide +kernel
  obtain ⟨hremovals, hkinds, -⟩ := request_joined {} crossedSentences.1 crossedSentences.2 hverb
  rw [hfirst.1, hsecond.1] at hremovals
  rw [hremovals, hfirst.2, hsecond.2] at hkinds
  exact ⟨hverb, hremovals, hkinds⟩

end Wireframe.Instruction
