import Wireframe.Instruction.Minimality
import Wireframe.Proofs.Seams
import Wireframe.Proofs.Stretches

namespace Wireframe

namespace Pattern

variable {cls : Char → Bool} {before : Option Char} {text part inner : List Char}

theorem filter_splitOnP_run {run : List Char} (hall : ∀ x ∈ run, cls x = true) (rest : List Char) :
    ((run ++ rest).splitOnP cls).filter (fun piece => !piece.isEmpty) =
      (rest.splitOnP cls).filter fun piece => !piece.isEmpty := by
  induction run with
  | nil => rfl
  | cons x run ih =>
    obtain ⟨hx, hall⟩ := List.forall_mem_cons.mp hall
    rw [List.cons_append, List.splitOnP_cons_eq_if_modifyHead, if_pos hx, List.filter_cons, ih hall]
    rfl

theorem modifyHead_nil_append (pieces : List (List Char)) :
    pieces.modifyHead (([] : List Char).reverse ++ ·) = pieces := by
  cases pieces <;> rfl

-- Empty pieces apart, a text is cut at runs of signs as it is cut at each of them.
theorem filter_piecesFrom (cls : Char → Bool) (piece : List Char) (before : Option Char)
    (text : List Char) :
    ((some1 cls).piecesFrom 0 piece before text).filter (fun piece => !piece.isEmpty) =
      ((text.splitOnP cls).modifyHead (piece.reverse ++ ·)).filter fun piece => !piece.isEmpty := by
  match text with
  | [] => simp [piecesFrom]
  | x :: rest =>
    by_cases hx : cls x = true
    · obtain ⟨run, left, htext, hne, hall, hleft⟩ := exists_run_of_head rest hx
      have hfront : (some1 cls).front? before (run ++ left) = some ⟨run.getLast?, left, none⟩ :=
        head?_ends_some1 hne hall hleft
      have hshorter : left.length < rest.length + 1 := by
        have hpos := List.length_pos_iff.mpr hne
        rw [← List.length_cons, htext, List.length_append]
        omega
      have ih := filter_piecesFrom cls [] run.getLast? left
      rw [modifyHead_nil_append] at ih
      obtain ⟨y, more, rfl⟩ := List.exists_cons_of_ne_nil hne
      obtain ⟨hy, hall⟩ := List.forall_mem_cons.mp hall
      have hmatch : (some1 cls).piecesFrom 0 piece before (y :: more ++ left) =
          piece.reverse :: (some1 cls).piecesFrom 0 [] (y :: more).getLast? left :=
        piecesFrom_match (e := ⟨(y :: more).getLast?, left, none⟩) hne hfront
      rw [htext, hmatch, List.cons_append, List.splitOnP_cons_eq_if_modifyHead, if_pos hy,
        List.modifyHead_cons, List.append_nil, List.filter_cons, List.filter_cons, ih,
        filter_splitOnP_run hall left]
    · have hx := eq_false_of_ne_true hx
      have hpass : ∀ e, (some1 cls).front? before (x :: rest) = some e → e.after = x :: rest := by
        simp [front?, ends_some1_of_not_mem hx]
      rw [piecesFrom_pass hpass, filter_piecesFrom cls (x :: piece) (some x) rest,
        List.splitOnP_cons_eq_if_modifyHead, if_neg (ne_true_of_eq_false hx),
        List.modifyHead_modifyHead]
      simp [Function.comp_def]
termination_by text.length

theorem exists_first_sign (cls : Char → Bool) (text : List Char) :
    (∀ x ∈ text, cls x = false) ∨ ∃ first sign rest, text = first ++ sign :: rest ∧
      (∀ x ∈ first, cls x = false) ∧ cls sign = true := by
  induction text with
  | nil => simp
  | cons x text ih =>
    by_cases hx : cls x = true
    · exact .inr ⟨[], x, text, rfl, by simp, hx⟩
    · have hx := eq_false_of_ne_true hx
      rcases ih with hnone | ⟨first, sign, rest, rfl, hfirst, hsign⟩
      · exact .inl (List.forall_mem_cons.mpr ⟨hx, hnone⟩)
      · exact .inr ⟨x :: first, sign, rest, rfl, List.forall_mem_cons.mpr ⟨hx, hfirst⟩, hsign⟩

theorem hasStretch_self (hbefore : before.any Text.isWord = false) (text : List Char) :
    HasStretch before text text :=
  ⟨[], [], by simp, hbefore, rfl⟩

theorem HasStretch.alone (h : HasStretch before text part) : HasStretch none text part := by
  obtain ⟨front, back, rfl, hfront, hback⟩ := h
  exact ⟨front, back, rfl, any_getLast?_of_append [] hfront, hback⟩

theorem HasStretch.append (h : HasStretch before text part) {rest : List Char}
    (hrest : rest.head?.any Text.isWord = false) : HasStretch before (text ++ rest) part := by
  obtain ⟨front, back, rfl, hfront, hback⟩ := h
  refine ⟨front, back ++ rest, by simp, hfront, ?_⟩
  cases back with
  | nil => exact hrest
  | cons c back => exact hback

-- A stretch of a stretch is a stretch of the whole text.
theorem HasStretch.trans (h : HasStretch before text part) (hinner : HasStretch none part inner) :
    HasStretch before text inner := by
  obtain ⟨front, back, rfl, hfront, hback⟩ := h
  obtain ⟨first, rest, rfl, hfirst, hrest⟩ := hinner
  refine ⟨front ++ first, rest ++ back, by simp, ?_, ?_⟩
  · rw [getLast?_append_or]
    cases hlast : first.getLast? with
    | none => exact hfront
    | some c => simpa [hlast] using hfirst
  · cases rest with
    | nil => exact hback
    | cons c rest => exact hrest

theorem HasStretch.reverse (h : HasStretch none text part) :
    HasStretch none text.reverse part.reverse := by
  obtain ⟨front, back, rfl, hfront, hback⟩ := h
  refine ⟨back.reverse, front.reverse, by simp, ?_, ?_⟩
  · simpa using hback
  · simpa using hfront

-- If signs are no part of words, the pieces between them are stretches of the text.
theorem hasStretch_of_mem_splitOnP {before : Option Char} {text part : List Char}
    (hcls : ∀ x, cls x = true → Text.isWord x = false)
    (hbefore : before.any Text.isWord = false) (hpart : part ∈ text.splitOnP cls) :
    HasStretch before text part := by
  rcases exists_first_sign cls text with hnone | ⟨first, sign, rest, rfl, hfirst, hsign⟩
  · rw [List.splitOnP_eq_singleton hnone, List.mem_singleton] at hpart
    exact hpart ▸ hasStretch_self hbefore text
  · rw [List.splitOnP_append_cons_of_forall_mem hfirst sign hsign, List.mem_cons] at hpart
    have hword := hcls sign hsign
    rcases hpart with rfl | hpart
    · exact (hasStretch_self hbefore part).append hword
    · have hrest := @hasStretch_of_mem_splitOnP (some sign) rest part hcls hword hpart
      rw [List.append_cons]
      exact HasStretch.prepend (by simpa using hrest)
termination_by text.length

-- A stretch without signs lies in one of the pieces.
theorem HasStretch.exists_mem_splitOnP {before : Option Char} {text part : List Char}
    (h : HasStretch before text part) (hne : part ≠ []) (hfree : ∀ x ∈ part, cls x = false) :
    ∃ piece ∈ text.splitOnP cls, HasStretch none piece part := by
  rcases exists_first_sign cls text with hnone | ⟨first, sign, rest, rfl, hfirst, hsign⟩
  · rw [List.splitOnP_eq_singleton hnone]
    exact ⟨text, List.mem_singleton_self text, h.alone⟩
  · rw [List.splitOnP_append_cons_of_forall_mem hfirst sign hsign]
    have hnot : sign ∉ part := by
      intro hmem
      simp [hfree sign hmem] at hsign
    rcases h.split hne hnot with h | h
    · exact ⟨first, List.mem_cons_self, h⟩
    · obtain ⟨piece, hpiece, hstretch⟩ := HasStretch.exists_mem_splitOnP h hne hfree
      exact ⟨piece, List.mem_cons_of_mem first hpiece, hstretch⟩
termination_by text.length

theorem hasStretch_trimStart (text : List Char) : HasStretch none text (Text.trimStart text) := by
  refine ⟨text.takeWhile Text.isBlank, [], ?_, ?_, rfl⟩
  · rw [List.append_nil]
    exact List.takeWhile_append_dropWhile.symm
  · cases hlast : (text.takeWhile Text.isBlank).getLast? with
    | none => rfl
    | some c =>
      have hblanks := List.all_eq_true.mp (@List.all_takeWhile _ Text.isBlank text)
      exact Text.not_isWord_of_isBlank (hblanks c (List.mem_of_getLast? hlast))

-- A stretch that begins with a word character stays in the text when blanks are trimmed.
theorem HasStretch.trimStart (h : HasStretch none text part)
    (hpart : part.head?.any Text.isWord = true) : HasStretch none (Text.trimStart text) part := by
  obtain ⟨front, back, rfl, hfront, hback⟩ := h
  induction front with
  | nil =>
    have hkept : Text.trimStart (part ++ back) = part ++ back := by
      cases part with
      | nil => cases hpart
      | cons c part =>
        have hsolid : Text.isBlank c = false := by
          by_contra hblank
          have hword := Text.not_isWord_of_isBlank (eq_true_of_ne_false hblank)
          simp [hword] at hpart
        simp [Text.trimStart, hsolid]
    rw [List.nil_append, hkept]
    exact ⟨[], back, rfl, rfl, hback⟩
  | cons x front ih =>
    by_cases hx : Text.isBlank x = true
    · have hdrop : Text.trimStart (x :: front ++ part ++ back) =
          Text.trimStart (front ++ part ++ back) := by
        simp [Text.trimStart, hx]
      rw [hdrop]
      exact ih (any_getLast?_of_append [x] hfront)
    · have hkept : Text.trimStart (x :: front ++ part ++ back) = x :: front ++ part ++ back := by
        simp [Text.trimStart, hx]
      rw [hkept]
      exact ⟨x :: front, back, rfl, hfront, hback⟩

theorem trimEnd_eq (text : List Char) :
    Text.trimEnd text = (Text.trimStart text.reverse).reverse := rfl

theorem hasStretch_trim (text : List Char) : HasStretch none text (Text.trim text) := by
  have hend := (hasStretch_trimStart (Text.trimStart text).reverse).reverse
  rw [List.reverse_reverse] at hend
  exact (hasStretch_trimStart text).trans hend

theorem HasStretch.trim (h : HasStretch none text part) (hfirst : part.head?.any Text.isWord = true)
    (hlast : part.getLast?.any Text.isWord = true) : HasStretch none (Text.trim text) part := by
  have hend := (h.trimStart hfirst).reverse.trimStart (by simpa using hlast)
  simpa [Text.trim, trimEnd_eq] using hend.reverse

-- The pattern of a phrase: it begins and ends with a word, whatever stands around it.
structure IsPhrase (p : Pattern) : Prop where
  opens : p.Opens
  closes : p.Closes
  edgeless : p.hasEdge = false

-- A phrase occurs as a whole where a stretch is spelled by it.
theorem IsPhrase.occursIn_whole_iff {p : Pattern} (hp : p.IsPhrase) :
    (whole p).occursIn text = true ↔
      ∃ part, p.Spells none part [] ∧ HasStretch none text part := by
  rw [occursIn_iff_spells]
  constructor
  · rintro ⟨front, part, back, rfl, hwhole⟩
    obtain ⟨hbefore, -, -, hafter⟩ := takesWords_whole hp.opens hp.closes _ _ _ hwhole
    obtain ⟨-, hspells, -⟩ := spells_whole.mp hwhole
    refine ⟨part, hspells.of_spells hp.edgeless none [], front, back, rfl, ?_, hafter⟩
    rwa [Option.or_none]
  · rintro ⟨part, hspells, front, back, rfl, hbefore, hafter⟩
    have hfirst := any_head?_append (hp.opens _ _ _ hspells) back
    have hlast := any_getLast?_or (hp.closes _ _ _ hspells) front.getLast?
    rw [Option.or_none] at hbefore
    refine ⟨front, part, back, rfl, spells_whole.mpr ⟨?_, ?_, ?_⟩⟩
    · exact (isEdge_iff_before hfirst).mpr hbefore
    · exact hspells.of_spells hp.edgeless front.getLast? back
    · exact (isEdge_iff_after hlast).mpr hafter

end Pattern

namespace Instruction

open Pattern

variable {text clause part : List Char}

-- Clauses are what stands between the signs that end them.
theorem clauses_eq (text : List Char) :
    clauses text =
      ((text.splitOnP isClauseEnd).map Text.trim).filter fun clause => !clause.isEmpty := by
  have htrim : ∀ pieces : List (List Char),
      (pieces.map Text.trim).filter (fun clause => !clause.isEmpty) =
        ((pieces.filter fun piece => !piece.isEmpty).map Text.trim).filter
          fun clause => !clause.isEmpty := by
    intro pieces
    induction pieces with
    | nil => rfl
    | cons piece pieces ih =>
      cases piece with
      | nil => exact ih
      | cons c piece =>
        rw [List.map_cons, List.filter_cons, ih, List.filter_cons_of_pos rfl, List.map_cons,
          List.filter_cons]
  have hpieces := filter_piecesFrom isClauseEnd [] none text
  rw [modifyHead_nil_append] at hpieces
  rw [clauses, piecesBetween, htrim, pieces, hpieces, ← htrim]

theorem mem_clauses_iff :
    clause ∈ clauses text ↔
      ∃ piece ∈ text.splitOnP isClauseEnd, Text.trim piece = clause ∧ clause ≠ [] := by
  rw [clauses_eq, List.mem_filter, List.mem_map]
  simp only [Bool.not_eq_true', List.isEmpty_eq_false_iff]
  constructor
  · rintro ⟨⟨piece, hpiece, htrim⟩, hne⟩
    exact ⟨piece, hpiece, htrim, hne⟩
  · rintro ⟨piece, hpiece, htrim, hne⟩
    exact ⟨⟨piece, hpiece, htrim⟩, hne⟩

theorem not_isWord_of_isClauseEnd {x : Char} (h : isClauseEnd x = true) :
    Text.isWord x = false := by
  simp only [isClauseEnd, List.contains_iff_mem, List.mem_cons, List.not_mem_nil, or_false] at h
  rcases h with rfl | rfl | rfl | rfl | rfl <;> decide

-- No word of the text goes on beyond an end of a clause.
theorem hasStretch_of_mem_clauses (h : clause ∈ clauses text) : HasStretch none text clause := by
  obtain ⟨piece, hpiece, rfl, -⟩ := mem_clauses_iff.mp h
  have hstretch : HasStretch none text piece :=
    hasStretch_of_mem_splitOnP (fun _ => not_isWord_of_isClauseEnd) rfl hpiece
  exact hstretch.trans (hasStretch_trim piece)

theorem exists_mem_clauses_of_hasStretch (h : HasStretch none text part)
    (hfirst : part.head?.any Text.isWord = true) (hlast : part.getLast?.any Text.isWord = true)
    (hfree : ∀ x ∈ part, isClauseEnd x = false) :
    ∃ clause ∈ clauses text, HasStretch none clause part := by
  have hne : part ≠ [] := by
    rintro rfl
    cases hfirst
  obtain ⟨piece, hpiece, hstretch⟩ := h.exists_mem_splitOnP hne hfree
  have htrimmed := hstretch.trim hfirst hlast
  refine ⟨Text.trim piece, mem_clauses_iff.mpr ⟨piece, hpiece, rfl, ?_⟩, htrimmed⟩
  obtain ⟨front, back, htrim, -, -⟩ := htrimmed
  rw [htrim]
  simp [hne]

-- A phrase without the signs of the text that end clauses occurs in one of the clauses if it occurs
-- at all.
theorem occursIn_whole_iff_exists_clause {p : Pattern} (hp : p.IsPhrase)
    (hsigns : ∀ x ∈ text, isClauseEnd x = true → p.admits x = false) :
    (whole p).occursIn text = true ↔ ∃ clause ∈ clauses text, (whole p).occursIn clause = true := by
  simp only [hp.occursIn_whole_iff]
  constructor
  · rintro ⟨part, hspells, hstretch⟩
    have hfree : ∀ x ∈ part, isClauseEnd x = false := by
      intro x hx
      by_contra hsign
      have hmem : x ∈ text := by
        obtain ⟨front, back, rfl, -, -⟩ := hstretch
        simp [hx]
      have hadmits := admits_of_spells hspells hx
      rw [hsigns x hmem (eq_true_of_ne_false hsign)] at hadmits
      cases hadmits
    obtain ⟨clause, hclause, hinside⟩ := exists_mem_clauses_of_hasStretch hstretch
      (hp.opens _ _ _ hspells) (hp.closes _ _ _ hspells) hfree
    exact ⟨clause, hclause, part, hspells, hinside⟩
  · rintro ⟨clause, hclause, part, hspells, hinside⟩
    exact ⟨part, hspells, (hasStretch_of_mem_clauses hclause).trans hinside⟩

end Instruction

end Wireframe
