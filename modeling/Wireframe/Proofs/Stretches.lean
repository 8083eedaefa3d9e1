import Wireframe.Proofs.Mention
import Wireframe.Proofs.Splitting

namespace Wireframe.Pattern

variable {p q : Pattern} {before : Option Char} {part after text left : List Char}

theorem any_head?_append (h : part.head?.any Text.isWord = true) (after : List Char) :
    (part ++ after).head?.any Text.isWord = true := by
  cases part with
  | nil => cases h
  | cons c rest => exact h

theorem any_getLast?_or (h : part.getLast?.any Text.isWord = true) (before : Option Char) :
    (part.getLast?.or before).any Text.isWord = true := by
  cases hlast : part.getLast? with
  | none => simp [hlast] at h
  | some c => simpa [hlast] using h

theorem isEdge_iff_before (h : after.head?.any Text.isWord = true) :
    IsEdge before after ↔ before.any Text.isWord = false := by
  rw [IsEdge, h, ne_eq, Bool.not_eq_true]

theorem isEdge_iff_after (h : before.any Text.isWord = true) :
    IsEdge before after ↔ after.head?.any Text.isWord = false := by
  rw [IsEdge, h, ne_comm, ne_eq, Bool.not_eq_true]

-- A part of a text, behind a given character, with no word that goes on beyond one of its ends.
def HasStretch (before : Option Char) (text part : List Char) : Prop :=
  ∃ front back, text = front ++ part ++ back ∧
    (front.getLast?.or before).any Text.isWord = false ∧ back.head?.any Text.isWord = false

-- No word goes on from the end of a text into what stands in front of it there.
theorem any_getLast?_of_append (front : List Char) {more : List Char}
    (h : ((front ++ more).getLast?.or before).any Text.isWord = false) :
    (more.getLast?.or none).any Text.isWord = false := by
  rw [getLast?_append_or] at h
  cases hlast : more.getLast? with
  | none => rfl
  | some c => simpa [hlast] using h

theorem HasStretch.prepend {front : List Char} (h : HasStretch (front.getLast?.or before) text part) :
    HasStretch before (front ++ text) part := by
  obtain ⟨first, back, rfl, hfirst, hback⟩ := h
  refine ⟨front ++ first, back, by simp, ?_, hback⟩
  rwa [getLast?_append_or]

-- A stretch without a certain character lies on one side of it.
theorem HasStretch.split {first second : List Char} {sign : Char}
    (h : HasStretch before (first ++ sign :: second) part) (hne : part ≠ []) (hsign : sign ∉ part) :
    HasStretch none first part ∨ HasStretch none second part := by
  obtain ⟨front, back, hsplit, hfront, hback⟩ := h
  rw [List.append_assoc, List.append_eq_append_iff] at hsplit
  rcases hsplit with ⟨more, rfl, hmore⟩ | ⟨more, rfl, hmore⟩
  · right
    cases more with
    | nil =>
      obtain ⟨c, tail, rfl⟩ := List.exists_cons_of_ne_nil hne
      obtain ⟨rfl, -⟩ := List.cons.inj hmore
      exact absurd List.mem_cons_self hsign
    | cons c more =>
      obtain ⟨rfl, rfl⟩ := List.cons.inj hmore
      rw [List.append_cons] at hfront
      exact ⟨more, back, (List.append_assoc ..).symm, any_getLast?_of_append _ hfront, hback⟩
  · left
    have hinside := any_getLast?_of_append [] hfront
    rcases List.append_eq_append_iff.mp hmore with ⟨tail, rfl, rfl⟩ | ⟨tail, rfl, htail⟩
    · refine ⟨front, tail, (List.append_assoc ..).symm, hinside, ?_⟩
      cases tail with
      | nil => rfl
      | cons c tail => exact hback
    · cases tail with
      | nil => exact ⟨front, [], by simp, hinside, rfl⟩
      | cons c tail =>
        obtain ⟨rfl, -⟩ := List.cons.inj htail
        exact absurd (List.mem_append_right more List.mem_cons_self) hsign

-- A part that begins and ends with a word character and has no space in it.
structure Solid (part : List Char) : Prop where
  first : part.head?.any Text.isWord = true
  last : part.getLast?.any Text.isWord = true
  unspaced : ' ' ∉ part

theorem Solid.ne_nil (h : Solid part) : part ≠ [] := by
  rintro rfl
  exact Bool.false_ne_true h.first

-- Also behind a character from which no word goes on into the text.
theorem HasStretch.behind (h : HasStretch none text part) (hpart : Solid part)
    (hbefore : before.any Text.isWord = true → text.head?.any Text.isWord = false) :
    HasStretch before text part := by
  obtain ⟨front, back, rfl, hfront, hback⟩ := h
  refine ⟨front, back, rfl, ?_, hback⟩
  cases hlast : front.getLast? with
  | some x => simpa [hlast] using hfront
  | none =>
    obtain rfl := List.getLast?_eq_none_iff.mp hlast
    by_contra hword
    have hnot := hbefore (by simpa using hword)
    have hfirst := any_head?_append hpart.first back
    rw [List.nil_append, hfirst] at hnot
    cases hnot

-- The pattern spells whole words only.
def TakesWords (p : Pattern) : Prop :=
  ∀ before part after, p.Spells before part after →
    before.any Text.isWord = false ∧ part.head?.any Text.isWord = true ∧
      part.getLast?.any Text.isWord = true ∧ after.head?.any Text.isWord = false

-- The induction is on the matches. A stretch of what is left lies behind the first of them or in
-- front of it, and not next to it, as matches are words and stretches begin and end with words.
theorem Cut.hasStretch (hp : p.TakesWords) (hcut : Cut p [' '] before text left)
    (hbefore : before.any Text.isWord = true → text.head?.any Text.isWord = false)
    (hpart : Solid part) (h : HasStretch none left part) : HasStretch before text part := by
  induction hcut with
  | keep => exact h.behind hpart hbefore
  | @replace before piece found rest left hne hspells _ ih =>
    obtain ⟨hnot, -, hlast, hrest⟩ := hp _ _ _ hspells
    rw [List.append_assoc, List.singleton_append] at h
    rcases h.split hpart.ne_nil hpart.unspaced with hpiece | hleft
    · obtain ⟨front, back, rfl, hfront, hback⟩ := hpiece
      have hbackHead : (back ++ (found ++ rest)).head?.any Text.isWord = false := by
        cases back with
        | cons c back => exact hback
        | nil =>
          rw [List.append_nil, getLast?_append_or, any_getLast?_or hpart.last] at hnot
          cases hnot
      refine HasStretch.behind ⟨front, _, ?_, hfront, hbackHead⟩ hpart hbefore
      simp
    · have hbehind := ih (fun _ => hrest) hleft
      have hfound : (piece ++ found).getLast?.or before = found.getLast? := by
        rw [getLast?_append_or, List.getLast?_eq_some_getLast hne]
        rfl
      rw [← hfound] at hbehind
      exact hbehind.prepend

def Opens (p : Pattern) : Prop :=
  ∀ before part after, p.Spells before part after → part.head?.any Text.isWord = true

def Closes (p : Pattern) : Prop :=
  ∀ before part after, p.Spells before part after → part.getLast?.any Text.isWord = true

theorem Opens.append (h : p.Opens) (q : Pattern) : (p ++ q).Opens := by
  rintro before _ after ⟨front, back, rfl, hp, -⟩
  have hfirst := h _ _ _ hp
  cases front with
  | nil => cases hfirst
  | cons c front => exact hfirst

theorem Closes.append (h : q.Closes) (p : Pattern) : (p ++ q).Closes := by
  rintro before _ after ⟨front, back, rfl, -, hq⟩
  have hlast := h _ _ _ hq
  rw [List.getLast?_append]
  cases hback : back.getLast? with
  | none => simp [hback] at hlast
  | some c => simpa [hback] using hlast

theorem Opens.or (hp : p.Opens) (hq : q.Opens) : (p ||| q).Opens := by
  rintro before part after (h | h)
  · exact hp _ _ _ h
  · exact hq _ _ _ h

theorem Closes.or (hp : p.Closes) (hq : q.Closes) : (p ||| q).Closes := by
  rintro before part after (h | h)
  · exact hp _ _ _ h
  · exact hq _ _ _ h

theorem Opens.opt_append (hp : p.Opens) (hq : q.Opens) : (opt p ++ q).Opens := by
  rintro before _ after ⟨front, back, rfl, hfront | rfl, hback⟩
  · exact hp.append q before _ after ⟨front, back, rfl, hfront, hback⟩
  · exact hq _ _ _ hback

theorem Closes.append_opt (hp : p.Closes) (hq : q.Closes) : (p ++ opt q).Closes := by
  rintro before _ after ⟨front, back, rfl, hfront, hback | rfl⟩
  · exact hq.append p before _ after ⟨front, back, rfl, hfront, hback⟩
  · rw [List.append_nil]
    exact hp _ _ _ hfront

-- What folds to an ASCII letter or digit is a word character.
theorem any_isWord_of_fold {x : Option Char} (h : (x.map Text.fold).any Char.isAlphanum = true) :
    x.any Text.isWord = true := by
  cases x with
  | none => cases h
  | some x => exact Text.isWord_of_fold rfl h

theorem opens_litOf {words : List String}
    (h : ∀ word ∈ words, word.toList.head?.any Char.isAlphanum = true) : (litOf words).Opens := by
  intro before part after hpart
  obtain ⟨word, hword, hfold⟩ := spells_litOf.mp hpart
  apply any_isWord_of_fold
  rw [← List.head?_map, hfold]
  exact h word hword

theorem closes_litOf {words : List String}
    (h : ∀ word ∈ words, word.toList.getLast?.any Char.isAlphanum = true) :
    (litOf words).Closes := by
  intro before part after hpart
  obtain ⟨word, hword, hfold⟩ := spells_litOf.mp hpart
  apply any_isWord_of_fold
  rw [← List.getLast?_map, hfold]
  exact h word hword

theorem opens_lit {word : String} (h : word.toList.head?.any Char.isAlphanum = true) :
    (lit word).Opens :=
  opens_litOf (List.forall_mem_singleton.mpr h)

theorem closes_lit {word : String} (h : word.toList.getLast?.any Char.isAlphanum = true) :
    (lit word).Closes :=
  closes_litOf (List.forall_mem_singleton.mpr h)

theorem takesWords_whole (hopens : p.Opens) (hcloses : p.Closes) : (whole p).TakesWords := by
  intro before part after h
  obtain ⟨hfirst, hp, hlast⟩ := spells_whole.mp h
  have hhead := hopens _ _ _ hp
  have hend := hcloses _ _ _ hp
  rw [isEdge_iff_before (any_head?_append hhead after)] at hfirst
  rw [isEdge_iff_after (any_getLast?_or hend before)] at hlast
  exact ⟨hfirst, hhead, hend, hlast⟩

-- All that the pattern spells is solid, wherever it stands.
structure Compact (p : Pattern) : Prop where
  opens : p.Opens
  closes : p.Closes
  unspaced : p.admits ' ' = false
  edgeless : p.hasEdge = false

theorem Compact.solid (hp : p.Compact) (h : p.Spells before part after) : Solid part := by
  refine ⟨hp.opens _ _ _ h, hp.closes _ _ _ h, fun hspace => ?_⟩
  have hadmits := admits_of_spells h hspace
  rw [hp.unspaced] at hadmits
  cases hadmits

-- A text of letters and digits.
theorem compact_lit {word : String} (hne : word.toList ≠ [])
    (hall : word.toList.all Char.isAlphanum = true) : (lit word).Compact where
  opens := by
    obtain ⟨c, rest, hword⟩ := List.exists_cons_of_ne_nil hne
    apply opens_lit
    rw [hword, List.all_cons, Bool.and_eq_true] at hall
    rw [hword]
    exact hall.1
  closes := by
    apply closes_lit
    rw [List.getLast?_eq_some_getLast hne]
    exact List.all_eq_true.mp hall _ (List.getLast_mem hne)
  unspaced := by
    refine (admits_letters _ _).trans (List.any_eq_false.mpr fun c hc hspace => ?_)
    have hc := List.all_eq_true.mp hall c hc
    rw [← beq_iff_eq.mp hspace] at hc
    cases hc
  edgeless := hasEdge_letters _

theorem Compact.append_opt (hp : p.Compact) (hq : q.Compact) : (p ++ opt q).Compact where
  opens := hp.opens.append _
  closes := hp.closes.append_opt hq.closes
  unspaced := by
    show (p.admits ' ' || (q.admits ' ' || false)) = false
    rw [hp.unspaced, hq.unspaced]
    rfl
  edgeless := by
    show (p.hasEdge || (q.hasEdge || false)) = false
    rw [hp.edgeless, hq.edgeless]
    rfl

theorem Compact.takesWords_whole (hp : p.Compact) : (whole p).TakesWords :=
  Pattern.takesWords_whole hp.opens hp.closes

-- Where the pattern occurs in a text there is a solid stretch, and wherever this is a stretch the
-- pattern occurs.
def Rooted (p : Pattern) : Prop :=
  ∀ text, p.occursIn text = true → ∃ core, Solid core ∧ HasStretch none text core ∧
    ∀ other, HasStretch none other core → p.occursIn other = true

-- What a rooted pattern needs is not made by cutting out words.
theorem Rooted.of_replaceAll (hp : p.Rooted) (hq : q.TakesWords)
    (h : p.occursIn (q.replaceAll [' '] text) = true) : p.occursIn text = true := by
  obtain ⟨core, hcore, hleft, hoccurs⟩ := hp _ h
  have hcut := cut_replaceAll q [' '] text
  exact hoccurs text (hcut.hasStretch hq (by simp) hcore hleft)

-- A part can be cut down to a solid stretch that the pattern spells wherever it stands.
def HasCore (p : Pattern) (part : List Char) : Prop :=
  ∃ core, Solid core ∧ HasStretch none part core ∧ ∀ before after, p.Spells before core after

theorem hasCore_self (h : p.Spells before part after) (hpart : Solid part)
    (hedge : p.hasEdge = false) : p.HasCore part :=
  ⟨part, hpart, ⟨[], [], by simp, rfl, rfl⟩, h.of_spells hedge⟩

theorem rooted_whole (h : ∀ before part after, p.Spells before part after → p.HasCore part) :
    (whole p).Rooted := by
  intro text htext
  obtain ⟨front, part, back, rfl, hspells⟩ := occursIn_iff_spells.mp htext
  obtain ⟨hfirst, hp, hlast⟩ := spells_whole.mp hspells
  obtain ⟨core, hcore, ⟨before, after, rfl, hbefore, hafter⟩, halone⟩ := h _ _ _ hp
  refine ⟨core, hcore, ⟨front ++ before, after ++ back, by simp, ?_, ?_⟩, ?_⟩
  · rw [getLast?_append_or, Option.or_none]
    cases hbeforeLast : before.getLast? with
    | some c => simpa [hbeforeLast] using hbefore
    | none =>
      obtain rfl := List.getLast?_eq_none_iff.mp hbeforeLast
      rw [List.nil_append, List.append_assoc] at hfirst
      exact (isEdge_iff_before (any_head?_append hcore.first _)).mp hfirst
  · cases after with
    | cons c after => exact hafter
    | nil =>
      rw [List.append_nil, getLast?_append_or] at hlast
      exact (isEdge_iff_after (any_getLast?_or hcore.last _)).mp hlast
  · rintro other ⟨front, back, rfl, hfront, hback⟩
    rw [Option.or_none] at hfront
    refine occursIn_iff_spells.mpr ⟨front, core, back, rfl, spells_whole.mpr ⟨?_, halone _ _, ?_⟩⟩
    · exact (isEdge_iff_before (any_head?_append hcore.first _)).mpr hfront
    · exact (isEdge_iff_after (any_getLast?_or hcore.last _)).mpr hback

theorem Compact.rooted_whole (hp : p.Compact) : (whole p).Rooted :=
  Pattern.rooted_whole fun _ _ _ h => hasCore_self h (hp.solid h) hp.edgeless

end Wireframe.Pattern
