import Wireframe.Proofs.Spelling

namespace Wireframe.Pattern

variable {p : Pattern} {before : Option Char} {piece text : List Char} {e : Cursor}

theorem spells_of_front? (h : p.front? before text = some e) :
    ∃ found, text = found ++ e.after ∧ p.Spells before found e.after := by
  obtain ⟨found, hfound, -, hspells⟩ := spells_of_mem_ends (List.mem_of_head? h)
  exact ⟨found, hfound, hspells⟩

-- What belongs to a match is passed over.
theorem piecesFrom_inside (p : Pattern) (piece found rest : List Char) (before : Option Char) :
    p.piecesFrom found.length piece before (found ++ rest) =
      p.piecesFrom 0 piece (found.getLast?.or before) rest := by
  induction found generalizing before with
  | nil => rfl
  | cons x more ih =>
    rw [List.length_cons, List.cons_append, piecesFrom, ih, getLast?_cons_or]

theorem piecesFrom_match {found : List Char} (hne : found ≠ [])
    (h : p.front? before (found ++ e.after) = some e) :
    p.piecesFrom 0 piece before (found ++ e.after) =
      piece.reverse :: p.piecesFrom 0 [] found.getLast? e.after := by
  obtain ⟨x, more, rfl⟩ := List.exists_cons_of_ne_nil hne
  have hlength : (x :: (more ++ e.after)).length - e.after.length = more.length + 1 := by
    simp only [List.length_cons, List.length_append]
    omega
  have hlast : more.getLast?.or (some x) = (x :: more).getLast? := by
    rw [← getLast?_cons_or x more none, Option.or_none]
  rw [List.cons_append] at h ⊢
  rw [piecesFrom, h]
  simp only [hlength]
  rw [piecesFrom_inside, hlast]

-- A character that begins no match, or only an empty one, belongs to a piece.
theorem piecesFrom_pass {c : Char} {rest : List Char}
    (h : ∀ e, p.front? before (c :: rest) = some e → e.after = c :: rest) :
    p.piecesFrom 0 piece before (c :: rest) = p.piecesFrom 0 (c :: piece) (some c) rest := by
  rw [piecesFrom]
  cases hfront : p.front? before (c :: rest) with
  | none => rfl
  | some e => simp [h e hfront]

-- A character is passed, or it begins a match that is not empty.
theorem pass_or_match (p : Pattern) (before : Option Char) (c : Char) (rest : List Char) :
    (∀ e, p.front? before (c :: rest) = some e → e.after = c :: rest) ∨
      ∃ e found, p.front? before (c :: rest) = some e ∧ found ≠ [] ∧ c :: rest = found ++ e.after ∧
        p.Spells before found e.after ∧ e.after.length ≤ rest.length := by
  by_cases hpass : ∀ e, p.front? before (c :: rest) = some e → e.after = c :: rest
  · exact .inl hpass
  · push Not at hpass
    obtain ⟨e, hfront, hmoved⟩ := hpass
    obtain ⟨found, hfound, hspells⟩ := spells_of_front? hfront
    have hne : found ≠ [] := by
      rintro rfl
      exact hmoved hfound.symm
    have hpos := List.length_pos_iff.mpr hne
    have hlength := congrArg List.length hfound
    rw [List.length_cons, List.length_append] at hlength
    exact .inr ⟨e, found, hfront, hne, hfound, hspells, by omega⟩

theorem piecesFrom_ne_nil (p : Pattern) (inside : Nat) (piece : List Char) (before : Option Char)
    (text : List Char) : p.piecesFrom inside piece before text ≠ [] := by
  induction text generalizing inside piece before with
  | nil => simp [piecesFrom]
  | cons c rest ih =>
    unfold piecesFrom
    split
    · exact ih _ _ _
    · split
      · split
        · exact List.cons_ne_nil _ _
        · exact ih _ _ _
      · exact ih _ _ _

-- What becomes of a text, behind a given character, when some matches in it are replaced.
inductive Cut (p : Pattern) (filler : List Char) : Option Char → List Char → List Char → Prop where
  | keep {before : Option Char} (text : List Char) : Cut p filler before text text
  | replace {before : Option Char} {piece found rest left : List Char} :
    found ≠ [] → p.Spells (piece.getLast?.or before) found rest →
      Cut p filler found.getLast? rest left →
      Cut p filler before (piece ++ found ++ rest) (piece ++ filler ++ left)

theorem intercalate_cons_piecesFrom (filler first : List Char) (p : Pattern) (inside : Nat)
    (piece : List Char) (before : Option Char) (text : List Char) :
    filler.intercalate (first :: p.piecesFrom inside piece before text) =
      first ++ filler ++ filler.intercalate (p.piecesFrom inside piece before text) := by
  obtain ⟨second, rest, hpieces⟩ :=
    List.exists_cons_of_ne_nil (piecesFrom_ne_nil p inside piece before text)
  rw [hpieces, List.intercalate_cons_cons, List.append_assoc]

-- The induction is on the text that is still to be read; `piece` has been read already.
theorem cut_piecesFrom (p : Pattern) (filler piece : List Char) (before : Option Char)
    (text : List Char) :
    p.Cut filler before (piece.reverse ++ text)
      (filler.intercalate (p.piecesFrom 0 piece (piece.head?.or before) text)) := by
  match text with
  | [] =>
    rw [piecesFrom, List.intercalate_singleton, List.append_nil]
    exact .keep _
  | c :: rest =>
    rcases pass_or_match p (piece.head?.or before) c rest with
      hpass | ⟨e, found, hfront, hne, hfound, hspells, hshorter⟩
    · have ih := cut_piecesFrom p filler (c :: piece) before rest
      rw [piecesFrom_pass hpass]
      simpa using ih
    · have ih := cut_piecesFrom p filler [] found.getLast? e.after
      rw [hfound] at hfront ⊢
      rw [piecesFrom_match hne hfront, intercalate_cons_piecesFrom, ← List.append_assoc]
      rw [← List.getLast?_reverse] at hspells
      exact .replace hne hspells ih
termination_by text.length

theorem cut_replaceAll (p : Pattern) (filler text : List Char) :
    p.Cut filler none text (p.replaceAll filler text) :=
  cut_piecesFrom p filler [] none text

theorem piecesFrom_eq_singleton {start : Nat} (h : p.findFrom? start before text = none) :
    p.piecesFrom 0 piece before text = [piece.reverse ++ text] := by
  induction text generalizing start before piece with
  | nil => rw [piecesFrom, List.append_nil]
  | cons c rest ih =>
    rw [findFrom?] at h
    cases hfront : p.front? before (c :: rest) with
    | some e => simp [hfront] at h
    | none =>
      rw [hfront] at h
      rw [piecesFrom_pass (by simp [hfront]), ih h]
      simp

theorem replaceAll_eq_self (h : p.occursIn text = false) (filler : List Char) :
    p.replaceAll filler text = text := by
  have hnone : p.findFrom? 0 none text = none := by simpa [occursIn, find?] using h
  rw [replaceAll, pieces, piecesFrom_eq_singleton hnone]
  simp

end Wireframe.Pattern
