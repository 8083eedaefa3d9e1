import Mathlib.Data.List.Basic
import Wireframe.Pattern.Search

namespace Wireframe

-- What stands before the end of a text that stands behind a character, or behind none.
theorem getLast?_append_or (front back : List Char) (before : Option Char) :
    (front ++ back).getLast?.or before = back.getLast?.or (front.getLast?.or before) := by
  rw [List.getLast?_append, Option.or_assoc]

theorem getLast?_cons_or (x : Char) (more : List Char) (before : Option Char) :
    (x :: more).getLast?.or before = more.getLast?.or (some x) :=
  getLast?_append_or [x] more before

namespace Cursor

-- The way from one place in a text to another one, on which nothing is picked.
structure Leads (c e : Cursor) : Prop where
  picked : e.picked = c.picked
  passed : ∃ passed, c.after = passed ++ e.after ∧ e.before = passed.getLast?.or c.before

theorem Leads.refl (c : Cursor) : c.Leads c := ⟨rfl, [], rfl, rfl⟩

theorem Leads.trans {c d e : Cursor} (h : c.Leads d) (h' : d.Leads e) : c.Leads e := by
  obtain ⟨hpicked, first, hfirst, hbefore⟩ := h
  obtain ⟨hpicked', second, hsecond, hbefore'⟩ := h'
  refine ⟨hpicked'.trans hpicked, first ++ second, ?_, ?_⟩
  · rw [hfirst, hsecond, List.append_assoc]
  · rw [hbefore', hbefore, getLast?_append_or]

-- A step over one character.
theorem Leads.step {c : Cursor} {x : Char} {rest : List Char} (hafter : c.after = x :: rest) :
    c.Leads ⟨some x, rest, c.picked⟩ :=
  ⟨rfl, [x], hafter, rfl⟩

-- A way ends where it began or goes over the next character.
theorem leads_iff {c e : Cursor} :
    c.Leads e ↔ e = c ∨ ∃ x rest, c.after = x :: rest ∧ Leads ⟨some x, rest, c.picked⟩ e := by
  constructor
  · rintro ⟨hpicked, passed, hafter, hbefore⟩
    cases passed with
    | nil =>
      obtain ⟨before, after, picked⟩ := e
      cases hpicked
      cases hbefore
      cases hafter
      exact .inl rfl
    | cons x more =>
      refine .inr ⟨x, _, hafter, hpicked, more, rfl, ?_⟩
      rw [hbefore, getLast?_cons_or]
  · rintro (rfl | ⟨x, rest, hafter, hleads⟩)
    · exact .refl _
    · exact (Leads.step hafter).trans hleads

end Cursor

namespace Pattern

variable {p q : Pattern} {c e : Cursor} {cls : Char → Bool}

theorem ends_append : (p ++ q).ends c = (p.ends c).flatMap q.ends := rfl

theorem ends_or : (p ||| q).ends c = p.ends c ++ q.ends c := rfl

@[simp] theorem mem_ends_append : e ∈ (p ++ q).ends c ↔ ∃ mid ∈ p.ends c, e ∈ q.ends mid :=
  List.mem_flatMap

@[simp] theorem mem_ends_or : e ∈ (p ||| q).ends c ↔ e ∈ p.ends c ∨ e ∈ q.ends c :=
  List.mem_append

@[simp] theorem mem_ends_empty : e ∈ empty.ends c ↔ e = c := List.mem_singleton

@[simp] theorem mem_ends_edge : e ∈ edge.ends c ↔ c.atEdge = true ∧ e = c := by
  rw [ends]
  cases c.atEdge <;> simp

@[simp] theorem mem_ends_opt : e ∈ (opt p).ends c ↔ e ∈ p.ends c ∨ e = c := by
  rw [opt, mem_ends_or, mem_ends_empty]

theorem mem_ends_one :
    e ∈ (one cls).ends c ↔
      ∃ x rest, c.after = x :: rest ∧ cls x = true ∧ e = ⟨some x, rest, c.picked⟩ := by
  rw [ends]
  cases hafter : c.after with
  | nil => simp
  | cons x rest => cases hx : cls x <;> simp [hx]

theorem ends_anyOf (patterns : List Pattern) :
    (anyOf patterns).ends c = patterns.flatMap fun p => p.ends c := by
  induction patterns with
  | nil =>
    rw [anyOf, ends]
    cases c.after <;> rfl
  | cons p rest ih =>
    cases rest with
    | nil => simp [anyOf]
    | cons q rest =>
      rw [anyOf, ends_or, ih]
      simp only [List.flatMap_cons]

theorem mem_ends_anyOf {patterns : List Pattern} :
    e ∈ (anyOf patterns).ends c ↔ ∃ p ∈ patterns, e ∈ p.ends c := by
  rw [ends_anyOf, List.mem_flatMap]

-- A run can end behind any characters of its class, and only there.
theorem mem_reach_iff {picked : Option (List Char × List Char)} {nearer : List Cursor}
    {before : Option Char} {text : List Char} :
    e ∈ Cursor.reach cls picked nearer before text ↔ e ∈ nearer ∨ ∃ passed,
      text = passed ++ e.after ∧ (∀ x ∈ passed, cls x = true) ∧
        e.before = passed.getLast?.or before ∧ e.picked = picked := by
  induction text generalizing nearer before with
  | nil =>
    obtain ⟨eBefore, eAfter, ePicked⟩ := e
    rw [Cursor.reach, List.mem_cons, or_comm]
    simp only [Cursor.mk.injEq, List.nil_eq, List.append_eq_nil_iff]
    constructor
    · rintro (hnearer | ⟨rfl, rfl, rfl⟩)
      · exact .inl hnearer
      · exact .inr ⟨[], ⟨rfl, rfl⟩, by simp⟩
    · rintro (hnearer | ⟨_, ⟨rfl, rfl⟩, -, rfl, rfl⟩)
      · exact .inl hnearer
      · exact .inr ⟨rfl, rfl, rfl⟩
  | cons x rest ih =>
    -- the run stops in front of `x`, or goes on behind it
    have hhere : (e = ⟨before, x :: rest, picked⟩ ∨ cls x = true ∧ ∃ passed,
          rest = passed ++ e.after ∧ (∀ y ∈ passed, cls y = true) ∧
            e.before = passed.getLast?.or (some x) ∧ e.picked = picked) ↔
        ∃ passed, x :: rest = passed ++ e.after ∧ (∀ y ∈ passed, cls y = true) ∧
          e.before = passed.getLast?.or before ∧ e.picked = picked := by
      constructor
      · rintro (rfl | ⟨hx, passed, hrest, hall, hbefore, hpicked⟩)
        · exact ⟨[], by simp⟩
        · refine ⟨x :: passed, by simp [← hrest], List.forall_mem_cons.mpr ⟨hx, hall⟩, ?_, hpicked⟩
          rw [hbefore, getLast?_cons_or]
      · rintro ⟨passed, hrest, hall, hbefore, hpicked⟩
        cases passed with
        | nil =>
          obtain ⟨eBefore, eAfter, ePicked⟩ := e
          simp_all
        | cons y passed =>
          obtain ⟨rfl, htail⟩ := List.cons.inj hrest
          obtain ⟨hx, hall⟩ := List.forall_mem_cons.mp hall
          refine .inr ⟨hx, passed, htail, hall, ?_, hpicked⟩
          rw [hbefore, getLast?_cons_or]
    rw [Cursor.reach, ← hhere]
    cases hx : cls x with
    | false => simp [or_comm]
    | true => simp [ih, or_assoc, or_left_comm]

theorem mem_ends_run :
    e ∈ (run cls).ends c ↔ ∃ passed, c.after = passed ++ e.after ∧ (∀ x ∈ passed, cls x = true) ∧
      e.before = passed.getLast?.or c.before ∧ e.picked = c.picked := by
  rw [ends, mem_reach_iff]
  simp

theorem leads_of_mem_ends_run (h : e ∈ (run cls).ends c) : c.Leads e := by
  obtain ⟨passed, hafter, -, hbefore, hpicked⟩ := mem_ends_run.mp h
  exact ⟨hpicked, passed, hafter, hbefore⟩

-- Behind one character of a class or more there stands such a character.
theorem before_of_mem_ends_some1 (h : e ∈ (some1 cls).ends c) :
    ∃ x, e.before = some x ∧ cls x = true := by
  obtain ⟨mid, hone, hrun⟩ := mem_ends_append.mp h
  obtain ⟨x, rest, -, hx, rfl⟩ := mem_ends_one.mp hone
  obtain ⟨passed, -, hall, hbefore, -⟩ := mem_ends_run.mp hrun
  rw [hbefore]
  cases hlast : passed.getLast? with
  | none => exact ⟨x, rfl, hx⟩
  | some y => exact ⟨y, rfl, hall y (List.mem_of_getLast? hlast)⟩

-- Whether something is picked in a match.
def picks : Pattern → Bool
  | seq p q | either p q => p.picks || q.picks
  | pick _ => true
  | _ => false

theorem leads_of_mem_ends (hpicks : p.picks = false) (h : e ∈ p.ends c) : c.Leads e := by
  induction p generalizing c e with
  | empty =>
    obtain rfl := mem_ends_empty.mp h
    exact .refl _
  | one cls =>
    obtain ⟨x, rest, hafter, -, rfl⟩ := mem_ends_one.mp h
    exact .step hafter
  | run cls => exact leads_of_mem_ends_run h
  | edge =>
    obtain ⟨-, rfl⟩ := mem_ends_edge.mp h
    exact .refl _
  | seq p q ihp ihq =>
    rw [picks, Bool.or_eq_false_iff] at hpicks
    obtain ⟨mid, hmid, he⟩ := mem_ends_append.mp h
    exact (ihp hpicks.1 hmid).trans (ihq hpicks.2 he)
  | either p q ihp ihq =>
    rw [picks, Bool.or_eq_false_iff] at hpicks
    rcases mem_ends_or.mp h with h | h
    · exact ihp hpicks.1 h
    · exact ihq hpicks.2 h
  | pick p => cases hpicks

variable {text : List Char}

theorem isSome_front?_iff {before : Option Char} :
    (p.front? before text).isSome = true ↔ ∃ e, e ∈ p.ends ⟨before, text, none⟩ := by
  rw [front?, List.isSome_head?]
  exact ⟨List.exists_mem_of_ne_nil _, fun ⟨_, he⟩ => List.ne_nil_of_mem he⟩

-- The search goes on to the next character until there is a match.
theorem isSome_findFrom?_iff {start : Nat} {before : Option Char} :
    (p.findFrom? start before text).isSome = true ↔
      ∃ c, (Cursor.mk before text none).Leads c ∧ ∃ e, e ∈ p.ends c := by
  induction text generalizing start before with
  | nil =>
    have hhere : ∀ c, (Cursor.mk before [] none).Leads c ↔ c = ⟨before, [], none⟩ := by
      simp [Cursor.leads_iff (c := ⟨before, [], none⟩)]
    simp only [hhere, exists_eq_left]
    rw [findFrom?, ← isSome_front?_iff]
    cases p.front? before [] <;> rfl
  | cons x rest ih =>
    have hway : ∀ c, (Cursor.mk before (x :: rest) none).Leads c ↔
        c = ⟨before, x :: rest, none⟩ ∨ (Cursor.mk (some x) rest none).Leads c := by
      simp [Cursor.leads_iff (c := ⟨before, x :: rest, none⟩)]
    simp only [hway, or_and_right, exists_or, exists_eq_left]
    rw [findFrom?, ← isSome_front?_iff, ← @ih (start + 1)]
    cases p.front? before (x :: rest) <;> simp

theorem occursIn_iff :
    p.occursIn text = true ↔ ∃ c, (Cursor.mk none text none).Leads c ∧ ∃ e, e ∈ p.ends c :=
  isSome_findFrom?_iff

end Pattern

end Wireframe
