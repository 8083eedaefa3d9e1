import Mathlib.Data.List.Forall2
import Wireframe.Proofs.Splitting

namespace Wireframe

namespace Cursor

-- The place is the same but for a tail of the text: a word character stands before both or before
-- neither.
structure Alike (tail : List Char) (c c' : Cursor) : Prop where
  after : c'.after = c.after ++ tail
  word : c'.before.any Text.isWord = c.before.any Text.isWord

end Cursor

namespace Pattern

variable {p q : Pattern} {cls : Char → Bool} {before before' : Option Char}
  {text tail : List Char} {c c' e e' : Cursor}

-- No match of the pattern goes on into the tail, and no word does.
def Stops (p : Pattern) (tail : List Char) : Prop :=
  ∀ x ∈ tail.head?, Text.isWord x = false ∧ p.admits x = false

theorem Stops.parts (h : (p ++ q).Stops tail) : p.Stops tail ∧ q.Stops tail := by
  constructor
  · intro x hx
    exact ⟨(h x hx).1, (Bool.or_eq_false_iff.mp (h x hx).2).1⟩
  · intro x hx
    exact ⟨(h x hx).1, (Bool.or_eq_false_iff.mp (h x hx).2).2⟩

theorem any_isWord_head?_append (htail : ∀ x ∈ tail.head?, Text.isWord x = false) :
    (text ++ tail).head?.any Text.isWord = text.head?.any Text.isWord := by
  cases text with
  | cons x rest => rfl
  | nil =>
    cases tail with
    | nil => rfl
    | cons d more => exact htail d rfl

theorem forall₂_reach {picked picked' : Option (List Char × List Char)} {nearer nearer' : List Cursor}
    (htail : ∀ x ∈ tail.head?, cls x = false)
    (hnearer : List.Forall₂ (Cursor.Alike tail) nearer nearer')
    (hword : before'.any Text.isWord = before.any Text.isWord) :
    List.Forall₂ (Cursor.Alike tail) (Cursor.reach cls picked nearer before text)
      (Cursor.reach cls picked' nearer' before' (text ++ tail)) := by
  induction text generalizing nearer nearer' before before' with
  | nil =>
    have hreach : Cursor.reach cls picked' nearer' before' tail =
        ⟨before', tail, picked'⟩ :: nearer' := by
      cases tail with
      | nil => rfl
      | cons d more =>
        have hd : cls d = false := htail d rfl
        simp [Cursor.reach, hd]
    rw [List.nil_append, hreach]
    exact .cons ⟨rfl, hword⟩ hnearer
  | cons x rest ih =>
    rw [List.cons_append, Cursor.reach, Cursor.reach]
    cases cls x with
    | true => exact ih (.cons ⟨rfl, hword⟩ hnearer) rfl
    | false => exact .cons ⟨rfl, hword⟩ hnearer

-- By induction on the pattern: it can end at the same places, in the same order of preference.
theorem forall₂_ends (hstops : p.Stops tail) (hc : c.Alike tail c') :
    List.Forall₂ (Cursor.Alike tail) (p.ends c) (p.ends c') := by
  induction p generalizing c c' with
  | empty => exact .cons hc .nil
  | one cls =>
    rw [ends, ends, hc.after]
    cases c.after with
    | nil =>
      cases tail with
      | nil => exact .nil
      | cons d more =>
        have hd : cls d = false := (hstops d rfl).2
        simp [hd]
    | cons x rest =>
      cases hx : cls x with
      | true =>
        have hend : (Cursor.mk (some x) rest c.picked).Alike tail ⟨some x, rest ++ tail, c'.picked⟩ :=
          ⟨rfl, rfl⟩
        simpa [hx] using hend
      | false => simp [hx]
  | run cls =>
    rw [ends, ends, hc.after]
    exact forall₂_reach (fun x hx => (hstops x hx).2) .nil hc.word
  | edge =>
    have hedge : c'.atEdge = c.atEdge := by
      rw [Cursor.atEdge, Cursor.atEdge, hc.word, hc.after,
        any_isWord_head?_append fun x hx => (hstops x hx).1]
    rw [ends, ends, hedge]
    cases c.atEdge with
    | true => exact .cons hc .nil
    | false => exact .nil
  | seq p q ihp ihq =>
    obtain ⟨hp, hq⟩ := Stops.parts hstops
    exact List.rel_flatMap (ihp hp hc) fun _ _ hmid => ihq hq hmid
  | either p q ihp ihq =>
    obtain ⟨hp, hq⟩ := Stops.parts hstops
    exact List.rel_append (ihp hp hc) (ihq hq hc)
  | pick p ih =>
    rw [ends, ends, List.forall₂_map_left_iff, List.forall₂_map_right_iff]
    exact (ih hstops hc).imp fun _ _ h => ⟨h.after, h.word⟩

theorem map_after_front? (hstops : p.Stops tail)
    (hword : before'.any Text.isWord = before.any Text.isWord) :
    (p.front? before' (text ++ tail)).map (·.after) =
      (p.front? before text).map fun e => e.after ++ tail := by
  have hc : (Cursor.mk before text none).Alike tail ⟨before', text ++ tail, none⟩ := ⟨rfl, hword⟩
  have hends := forall₂_ends hstops hc
  rw [front?, front?]
  generalize p.ends ⟨before, text, none⟩ = here, p.ends ⟨before', text ++ tail, none⟩ = there at hends
  cases hends with
  | nil => rfl
  | cons h _ => exact congrArg some h.after

theorem head?_reach {picked : Option (List Char × List Char)} {nearer : List Cursor} {left : List Char}
    (run : List Char) (hall : ∀ x ∈ run, cls x = true) (hleft : ∀ x ∈ left.head?, cls x = false) :
    (Cursor.reach cls picked nearer before (run ++ left)).head? =
      some ⟨run.getLast?.or before, left, picked⟩ := by
  induction run generalizing nearer before with
  | nil =>
    cases left with
    | nil => rfl
    | cons x rest =>
      have hx : cls x = false := hleft x rfl
      simp [Cursor.reach, hx]
  | cons x more ih =>
    obtain ⟨hx, hall⟩ := List.forall_mem_cons.mp hall
    rw [List.cons_append, Cursor.reach, if_pos hx, ih hall, getLast?_cons_or]

theorem head?_ends_some1 {picked : Option (List Char × List Char)} {run left : List Char}
    (hne : run ≠ []) (hall : ∀ x ∈ run, cls x = true) (hleft : ∀ x ∈ left.head?, cls x = false) :
    ((some1 cls).ends ⟨before, run ++ left, picked⟩).head? = some ⟨run.getLast?, left, picked⟩ := by
  obtain ⟨x, more, rfl⟩ := List.exists_cons_of_ne_nil hne
  obtain ⟨hx, hall⟩ := List.forall_mem_cons.mp hall
  have hone : (one cls).ends ⟨before, x :: more ++ left, picked⟩ =
      [⟨some x, more ++ left, picked⟩] :=
    if_pos hx
  rw [some1, ends_append, hone, List.flatMap_singleton, ends, head?_reach more hall hleft,
    ← getLast?_cons_or x more none, Option.or_none]

-- The run takes all there is of its class.
theorem front?_run {run left : List Char} (q : Pattern) (before : Option Char) (hne : run ≠ [])
    (hall : ∀ x ∈ run, cls x = true) (hleft : ∀ x ∈ left.head?, cls x = false) :
    (some1 cls ||| q).front? before (run ++ left) = some ⟨run.getLast?, left, none⟩ := by
  rw [front?, ends_or, List.head?_append, head?_ends_some1 hne hall hleft]
  rfl

theorem ends_some1_of_not_mem {picked : Option (List Char × List Char)} {x : Char}
    {rest : List Char} (hx : cls x = false) : (some1 cls).ends ⟨before, x :: rest, picked⟩ = [] := by
  have hone : (one cls).ends ⟨before, x :: rest, picked⟩ = [] := if_neg (ne_true_of_eq_false hx)
  rw [some1, ends_append, hone, List.flatMap_nil]

theorem front?_of_not_mem {x : Char} {rest : List Char} (q : Pattern) (before : Option Char)
    (hx : cls x = false) :
    (some1 cls ||| q).front? before (x :: rest) = q.front? before (x :: rest) := by
  rw [front?, ends_or, ends_some1_of_not_mem hx, List.nil_append, front?]

-- Of what stands before, it counts only whether it is a word character.
theorem piecesFrom_congr {inside : Nat} {piece : List Char}
    (hword : before'.any Text.isWord = before.any Text.isWord) :
    p.piecesFrom inside piece before' text = p.piecesFrom inside piece before text := by
  cases text with
  | nil => rfl
  | cons c rest =>
    cases inside with
    | succ n => rfl
    | zero =>
      have hstops : p.Stops [] := nofun
      have hfront : (p.front? before' (c :: rest)).map (·.after) =
          (p.front? before (c :: rest)).map (·.after) := by
        simpa using map_after_front? hstops hword
      rw [piecesFrom, piecesFrom]
      cases h : p.front? before (c :: rest) <;> cases h' : p.front? before' (c :: rest) <;>
        simp_all

-- What has been read of a piece stands at the front of it.
theorem piecesFrom_append (inside : Nat) (piece extra : List Char) (before : Option Char)
    (text : List Char) :
    p.piecesFrom inside (piece ++ extra) before text =
      (p.piecesFrom inside piece before text).modifyHead (extra.reverse ++ ·) := by
  induction text generalizing inside piece before with
  | nil => simp [piecesFrom]
  | cons c rest ih =>
    cases inside with
    | succ n => exact ih n piece (some c)
    | zero =>
      have hpass := ih 0 (c :: piece) (some c)
      rw [piecesFrom, piecesFrom]
      cases p.front? before (c :: rest) with
      | none => exact hpass
      | some e =>
        cases hlength : (c :: rest).length - e.after.length with
        | zero =>
          simp only [hlength]
          exact hpass
        | succ n => simp only [hlength, List.reverse_append, List.modifyHead_cons]

theorem exists_run_of_head {x : Char} (rest : List Char) (hx : cls x = true) :
    ∃ run left, x :: rest = run ++ left ∧ run ≠ [] ∧ (∀ y ∈ run, cls y = true) ∧
      ∀ y ∈ left.head?, cls y = false := by
  have hne : (x :: rest).takeWhile cls ≠ [] := by simp [hx]
  have hall := List.all_eq_true.mp (@List.all_takeWhile _ cls (x :: rest))
  have hleft := List.head?_dropWhile_not cls (x :: rest)
  refine ⟨_, _, List.takeWhile_append_dropWhile.symm, hne, hall, ?_⟩
  intro y hy
  rwa [Option.mem_def.mp hy] at hleft

-- What the separator matches at a character is the same in front of a sign that it can take and of
-- more behind that, but for a run that ends at the sign: it takes the sign as well.
theorem map_after_front?_seam {d : Char} {more : List Char} (hd : cls d = true)
    (hstops : q.Stops (d :: more)) (hmore : ∀ x ∈ more.head?, cls x = false) (before : Option Char)
    (c : Char) (rest : List Char) :
    ((some1 cls ||| q).front? before (c :: rest ++ d :: more)).map (·.after) =
        ((some1 cls ||| q).front? before (c :: rest)).map (fun e => e.after ++ d :: more) ∨
      (((some1 cls ||| q).front? before (c :: rest)).map (·.after) = some [] ∧
        ((some1 cls ||| q).front? before (c :: rest ++ d :: more)).map (·.after) = some more) := by
  by_cases hc : cls c = true
  · obtain ⟨run, left, htext, hne, hall, hleft⟩ := exists_run_of_head rest hc
    rw [htext, List.append_assoc, front?_run q before hne hall hleft]
    cases left with
    | nil =>
      have hall' : ∀ x ∈ run ++ [d], cls x = true := by
        simpa [or_imp, forall_and, hd] using hall
      have hjoined := front?_run q before (by simp) hall' hmore
      rw [List.append_assoc, List.singleton_append] at hjoined
      rw [List.nil_append, hjoined]
      exact .inr ⟨rfl, rfl⟩
    | cons y rest =>
      rw [front?_run q before hne hall (by simpa using hleft)]
      exact .inl rfl
  · have hc := eq_false_of_ne_true hc
    rw [List.cons_append, front?_of_not_mem q before hc, front?_of_not_mem q before hc,
      ← List.cons_append]
    exact .inl (map_after_front? hstops rfl)

-- A sign that ends a piece makes the rest of the text pieces of its own, and the pieces before it are
-- those without the rest. By induction on the text: either the last match before the sign goes on over
-- it, or it is a match of its own.
theorem exists_piecesFrom_seam {d : Char} {more : List Char} (hd : cls d = true)
    (hstops : q.Stops (d :: more)) (hmore : ∀ x ∈ more.head?, cls x = false)
    (piece : List Char) (before : Option Char) (text : List Char) :
    ∃ front, ((some1 cls ||| q).piecesFrom 0 piece before text = front ∨
        (some1 cls ||| q).piecesFrom 0 piece before text = front ++ [[]]) ∧
      (some1 cls ||| q).piecesFrom 0 piece before (text ++ d :: more) =
        front ++ (some1 cls ||| q).piecesFrom 0 [] (some d) more := by
  match text with
  | [] =>
    have hfront := front?_run q before (List.cons_ne_nil d []) (by simpa using hd) hmore
    refine ⟨[piece.reverse], .inl rfl, ?_⟩
    exact piecesFrom_match (e := ⟨some d, more, none⟩) (List.cons_ne_nil d []) hfront
  | c :: rest =>
    have hseam := map_after_front?_seam hd hstops hmore before c rest
    rcases pass_or_match (some1 cls ||| q) before c rest with
      hpass | ⟨e, found, hfront, hne, hfound, -, hshorter⟩
    · have hpass' : ∀ e, (some1 cls ||| q).front? before (c :: (rest ++ d :: more)) = some e →
          e.after = c :: (rest ++ d :: more) := by
        intro e he
        rcases hseam with hsame | ⟨hended, -⟩
        · rw [List.cons_append, he, Option.map_some] at hsame
          obtain ⟨e', he', hafter⟩ := Option.map_eq_some_iff.mp hsame.symm
          rw [← hafter, hpass e' he', List.cons_append]
        · obtain ⟨e', he', hafter⟩ := Option.map_eq_some_iff.mp hended
          rw [hpass e' he'] at hafter
          cases hafter
      rw [piecesFrom_pass hpass, List.cons_append, piecesFrom_pass hpass']
      exact exists_piecesFrom_seam hd hstops hmore (c :: piece) (some c) rest
    · rw [hfront, hfound, List.append_assoc] at hseam
      rw [hfound] at hfront
      rw [hfound, List.append_assoc, piecesFrom_match hne hfront]
      rcases hseam with hsame | ⟨hended, hjoined⟩
      · rw [Option.map_some] at hsame
        obtain ⟨e', he', hafter⟩ := Option.map_eq_some_iff.mp hsame
        obtain ⟨front, hpieces, hjoined⟩ :=
          exists_piecesFrom_seam hd hstops hmore [] found.getLast? e.after
        rw [← hafter] at he'
        refine ⟨piece.reverse :: front, ?_, ?_⟩
        · simpa using hpieces
        · rw [← hafter, piecesFrom_match hne he', hafter, hjoined, List.cons_append]
      · obtain ⟨e', he', hafter⟩ := Option.map_eq_some_iff.mp hjoined
        have hended : e.after = [] := Option.some.inj hended
        have hrun : found ++ d :: more = (found ++ [d]) ++ e'.after := by simp [hafter]
        rw [hended, List.nil_append, hrun] at he' ⊢
        refine ⟨[piece.reverse], .inr rfl, ?_⟩
        rw [piecesFrom_match (by simp) he', hafter]
        simp
termination_by text.length

end Pattern

end Wireframe
