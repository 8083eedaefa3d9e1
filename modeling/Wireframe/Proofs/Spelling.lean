import Wireframe.Proofs.Matching

namespace Wireframe.Pattern

-- A word begins or ends here.
def IsEdge (before : Option Char) (after : List Char) : Prop :=
  before.any Text.isWord ≠ after.head?.any Text.isWord

-- The pattern spells a part of a text between what stands before and after it: a match without the
-- order of preference and without what is picked.
def Spells : Pattern → Option Char → List Char → List Char → Prop
  | empty, _, part, _ => part = []
  | one cls, _, part, _ => ∃ x, part = [x] ∧ cls x = true
  | run cls, _, part, _ => ∀ x ∈ part, cls x = true
  | edge, before, part, after => part = [] ∧ IsEdge before after
  | seq p q, before, part, after =>
    ∃ front back, part = front ++ back ∧ p.Spells before front (back ++ after) ∧
      q.Spells (front.getLast?.or before) back after
  | either p q, before, part, after => p.Spells before part after ∨ q.Spells before part after
  | pick p, before, part, after => p.Spells before part after

variable {p q : Pattern} {cls : Char → Bool} {before : Option Char} {part after text : List Char}
  {c e : Cursor}

theorem spells_of_mem_ends (h : e ∈ p.ends c) :
    ∃ part, c.after = part ++ e.after ∧ e.before = part.getLast?.or c.before ∧
      p.Spells c.before part e.after := by
  induction p generalizing c e with
  | empty =>
    obtain rfl := mem_ends_empty.mp h
    exact ⟨[], rfl, rfl, rfl⟩
  | one cls =>
    obtain ⟨x, rest, hafter, hx, rfl⟩ := mem_ends_one.mp h
    exact ⟨[x], hafter, rfl, x, rfl, hx⟩
  | run cls =>
    obtain ⟨part, hafter, hall, hbefore, -⟩ := mem_ends_run.mp h
    exact ⟨part, hafter, hbefore, hall⟩
  | edge =>
    obtain ⟨hedge, rfl⟩ := mem_ends_edge.mp h
    exact ⟨[], rfl, rfl, rfl, bne_iff_ne.mp hedge⟩
  | seq p q ihp ihq =>
    obtain ⟨mid, hmid, he⟩ := mem_ends_append.mp h
    obtain ⟨front, hfront, hbefore, hp⟩ := ihp hmid
    obtain ⟨back, hback, hbefore', hq⟩ := ihq he
    rw [hback] at hfront hp
    rw [hbefore] at hbefore' hq
    refine ⟨front ++ back, by simp [hfront], ?_, front, back, rfl, hp, hq⟩
    rw [hbefore', getLast?_append_or]
  | either p q ihp ihq =>
    rcases mem_ends_or.mp h with h | h
    · obtain ⟨part, hafter, hbefore, hp⟩ := ihp h
      exact ⟨part, hafter, hbefore, .inl hp⟩
    · obtain ⟨part, hafter, hbefore, hq⟩ := ihq h
      exact ⟨part, hafter, hbefore, .inr hq⟩
  | pick p ih =>
    obtain ⟨mid, hmid, rfl⟩ := List.mem_map.mp h
    obtain ⟨part, hafter, hbefore, hp⟩ := ih hmid
    exact ⟨part, hafter, hbefore, hp⟩

theorem exists_mem_ends_of_spells (h : p.Spells c.before part after)
    (hafter : c.after = part ++ after) :
    ∃ e ∈ p.ends c, e.before = part.getLast?.or c.before ∧ e.after = after := by
  induction p generalizing c part after with
  | empty =>
    obtain rfl := h
    exact ⟨c, mem_ends_empty.mpr rfl, rfl, hafter⟩
  | one cls =>
    obtain ⟨x, rfl, hx⟩ := h
    exact ⟨_, mem_ends_one.mpr ⟨x, after, hafter, hx, rfl⟩, rfl, rfl⟩
  | run cls =>
    let e : Cursor := ⟨part.getLast?.or c.before, after, c.picked⟩
    have hmem : e ∈ (run cls).ends c := mem_ends_run.mpr ⟨part, hafter, h, rfl, rfl⟩
    exact ⟨e, hmem, rfl, rfl⟩
  | edge =>
    obtain ⟨rfl, hedge⟩ := h
    rw [List.nil_append] at hafter
    rw [← hafter] at hedge
    exact ⟨c, mem_ends_edge.mpr ⟨bne_iff_ne.mpr hedge, rfl⟩, rfl, hafter⟩
  | seq p q ihp ihq =>
    obtain ⟨front, back, rfl, hp, hq⟩ := h
    obtain ⟨mid, hmid, hbefore, hmidAfter⟩ := ihp hp (by simp [hafter])
    rw [← hbefore] at hq
    obtain ⟨e, he, hbefore', heAfter⟩ := ihq hq hmidAfter
    refine ⟨e, mem_ends_append.mpr ⟨mid, hmid, he⟩, ?_, heAfter⟩
    rw [hbefore', hbefore, getLast?_append_or]
  | either p q ihp ihq =>
    rcases h with h | h
    · obtain ⟨e, he, hends⟩ := ihp h hafter
      exact ⟨e, mem_ends_or.mpr (.inl he), hends⟩
    · obtain ⟨e, he, hends⟩ := ihq h hafter
      exact ⟨e, mem_ends_or.mpr (.inr he), hends⟩
  | pick p ih =>
    obtain ⟨e, he, hbefore, heAfter⟩ := ih h hafter
    exact ⟨_, List.mem_map_of_mem he, hbefore, heAfter⟩

theorem occursIn_iff_spells :
    p.occursIn text = true ↔
      ∃ front part back, text = front ++ part ++ back ∧ p.Spells front.getLast? part back := by
  rw [occursIn_iff]
  constructor
  · rintro ⟨c, ⟨-, front, hfront, hbefore⟩, e, he⟩
    obtain ⟨part, hpart, -, hspells⟩ := spells_of_mem_ends he
    rw [hbefore, Option.or_none] at hspells
    exact ⟨front, part, e.after, by simp_all, hspells⟩
  · rintro ⟨front, part, back, rfl, hspells⟩
    let c : Cursor := ⟨front.getLast?, part ++ back, none⟩
    have hleads : (Cursor.mk none (front ++ part ++ back) none).Leads c :=
      ⟨rfl, front, List.append_assoc front part back, (Option.or_none ..).symm⟩
    obtain ⟨e, he, -, -⟩ := exists_mem_ends_of_spells (c := c) hspells rfl
    exact ⟨c, hleads, e, he⟩

@[simp] theorem spells_append :
    (p ++ q).Spells before part after ↔ ∃ front back, part = front ++ back ∧
      p.Spells before front (back ++ after) ∧ q.Spells (front.getLast?.or before) back after :=
  Iff.rfl

@[simp] theorem spells_or :
    (p ||| q).Spells before part after ↔
      p.Spells before part after ∨ q.Spells before part after :=
  Iff.rfl

@[simp] theorem spells_some1 :
    (some1 cls).Spells before part after ↔ part ≠ [] ∧ ∀ x ∈ part, cls x = true := by
  constructor
  · rintro ⟨_, back, rfl, ⟨x, rfl, hx⟩, hall⟩
    exact ⟨List.cons_ne_nil x back, List.forall_mem_cons.mpr ⟨hx, hall⟩⟩
  · rintro ⟨hne, hall⟩
    obtain ⟨x, rest, rfl⟩ := List.exists_cons_of_ne_nil hne
    obtain ⟨hx, hall⟩ := List.forall_mem_cons.mp hall
    exact ⟨[x], rest, rfl, ⟨x, rfl, hx⟩, hall⟩

theorem spells_anyOf {patterns : List Pattern} :
    (anyOf patterns).Spells before part after ↔ ∃ p ∈ patterns, p.Spells before part after := by
  induction patterns with
  | nil => simp [anyOf, Spells]
  | cons p rest ih =>
    cases rest with
    | nil => simp [anyOf]
    | cons q rest =>
      rw [anyOf, spells_or, ih]
      simp only [List.mem_cons, exists_eq_or_imp]

theorem spells_letters {chars : List Char} :
    (letters chars).Spells before part after ↔ part.map Text.fold = chars := by
  have hletter : ∀ (c : Char) (before : Option Char) (part after : List Char),
      (letter c).Spells before part after ↔ part.map Text.fold = [c] := by
    intro c before part after
    simp only [letter, Spells, beq_iff_eq, List.map_eq_singleton_iff]
  induction chars generalizing before part with
  | nil => simp [letters, Spells]
  | cons c rest ih =>
    cases rest with
    | nil => exact hletter c before part after
    | cons d rest =>
      have hsplit : c :: d :: rest = [c] ++ d :: rest := rfl
      rw [letters, spells_append, hsplit, List.map_eq_append_iff]
      simp only [hletter, ih]

@[simp] theorem spells_litOf {words : List String} :
    (litOf words).Spells before part after ↔ ∃ word ∈ words, part.map Text.fold = word.toList := by
  simp [litOf, lit, spells_anyOf, spells_letters]

@[simp] theorem spells_whole :
    (whole p).Spells before part after ↔
      IsEdge before (part ++ after) ∧ p.Spells before part after ∧
        IsEdge (part.getLast?.or before) after := by
  constructor
  · rintro ⟨_, _, rfl, ⟨_, part, rfl, ⟨rfl, hfirst⟩, hp⟩, rfl, hlast⟩
    simp_all
  · rintro ⟨hfirst, hp, hlast⟩
    exact ⟨part, [], by simp, ⟨[], part, rfl, ⟨rfl, hfirst⟩, hp⟩, rfl, hlast⟩

-- A class of the pattern holds the character.
def admits : Pattern → Char → Bool
  | empty, _ | edge, _ => false
  | one cls, x | run cls, x => cls x
  | seq p q, x | either p q, x => p.admits x || q.admits x
  | pick p, x => p.admits x

theorem admits_letters (word : List Char) (x : Char) :
    (letters word).admits x = word.any (Text.fold x == ·) := by
  induction word with
  | nil => rfl
  | cons c rest ih =>
    cases rest with
    | nil => exact (Bool.or_false _).symm
    | cons d rest => exact congrArg (Text.fold x == c || ·) ih

theorem admits_of_spells {x : Char} (h : p.Spells before part after) (hx : x ∈ part) :
    p.admits x = true := by
  induction p generalizing before part after with
  | empty =>
    obtain rfl := h
    cases hx
  | one cls =>
    obtain ⟨y, rfl, hy⟩ := h
    rwa [List.mem_singleton.mp hx]
  | run cls => exact h x hx
  | edge =>
    obtain ⟨rfl, -⟩ := h
    cases hx
  | seq p q ihp ihq =>
    obtain ⟨front, back, rfl, hp, hq⟩ := h
    rw [admits, Bool.or_eq_true]
    rcases List.mem_append.mp hx with hx | hx
    · exact .inl (ihp hp hx)
    · exact .inr (ihq hq hx)
  | either p q ihp ihq =>
    rw [admits, Bool.or_eq_true]
    rcases h with h | h
    · exact .inl (ihp h hx)
    · exact .inr (ihq h hx)
  | pick p ih => exact ih h hx

def hasEdge : Pattern → Bool
  | edge => true
  | seq p q | either p q => p.hasEdge || q.hasEdge
  | pick p => p.hasEdge
  | _ => false

theorem hasEdge_letters (word : List Char) : (letters word).hasEdge = false := by
  induction word with
  | nil => rfl
  | cons c rest ih =>
    cases rest with
    | nil => rfl
    | cons d rest => exact ih

-- What stands before and after counts for word edges only.
theorem Spells.of_spells (h : p.Spells before part after) (hedge : p.hasEdge = false)
    (before' : Option Char) (after' : List Char) : p.Spells before' part after' := by
  induction p generalizing before part after before' after' with
  | empty => exact h
  | one cls => exact h
  | run cls => exact h
  | edge => cases hedge
  | seq p q ihp ihq =>
    rw [hasEdge, Bool.or_eq_false_iff] at hedge
    obtain ⟨front, back, rfl, hp, hq⟩ := h
    exact ⟨front, back, rfl, ihp hp hedge.1 .., ihq hq hedge.2 ..⟩
  | either p q ihp ihq =>
    rw [hasEdge, Bool.or_eq_false_iff] at hedge
    rcases h with h | h
    · exact .inl (ihp h hedge.1 ..)
    · exact .inr (ihq h hedge.2 ..)
  | pick p ih => exact ih h hedge ..

end Wireframe.Pattern
