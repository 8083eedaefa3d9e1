import Wireframe.Instruction.Minimality
import Wireframe.Proofs.Counting
import Wireframe.Proofs.Mention
import Wireframe.Proofs.Seams

namespace Wireframe

namespace Pattern

variable {p q : Pattern} {c mid e : Cursor} {before : Option Char}

theorem head?_ends_append (hp : (p.ends c).head? = some mid) (hq : (q.ends mid).head? = some e) :
    ((p ++ q).ends c).head? = some e := by
  obtain ⟨others, hmid⟩ := List.head?_eq_some_iff.mp hp
  rw [ends_append, hmid, List.flatMap_cons, List.head?_append, hq]
  rfl

theorem ends_letter {x : Char} {rest : List Char} {picked : Option (List Char × List Char)}
    (d : Char) :
    (letter d).ends ⟨before, x :: rest, picked⟩ =
      if Text.fold x = d then [⟨some x, rest, picked⟩] else [] := by
  simp [letter, ends]

theorem ends_letters (word : List Char) {rest : List Char}
    {picked : Option (List Char × List Char)} :
    (letters (word.map Text.fold)).ends ⟨before, word ++ rest, picked⟩ =
      [⟨word.getLast?.or before, rest, picked⟩] := by
  induction word generalizing before with
  | nil => rfl
  | cons x more ih =>
    cases more with
    | nil => simp [letters, ends_letter]
    | cons y more =>
      have hsplit : letters ((x :: y :: more).map Text.fold) =
          letter (Text.fold x) ++ letters ((y :: more).map Text.fold) := rfl
      rw [hsplit, ends_append, List.cons_append, ends_letter, if_pos rfl, List.flatMap_singleton, ih,
        getLast?_cons_or x]

-- The search goes on over a part of the text in which no match begins.
theorem findFrom?_append {front text : List Char} {start : Nat}
    (hnone : ∀ passed x more, front = passed ++ x :: more →
      p.front? (passed.getLast?.or before) (x :: more ++ text) = none) :
    p.findFrom? start before (front ++ text) =
      p.findFrom? (start + front.length) (front.getLast?.or before) text := by
  induction front generalizing start before with
  | nil => rfl
  | cons x more ih =>
    have hhere : p.front? before (x :: (more ++ text)) = none := hnone [] x more rfl
    rw [List.cons_append, findFrom?, hhere]
    simp only
    rw [ih, List.length_cons, getLast?_cons_or, Nat.add_right_comm, Nat.add_assoc]
    intro passed y rest hmore
    have hthere := hnone (x :: passed) y rest (by rw [hmore, List.cons_append])
    rwa [getLast?_cons_or] at hthere

theorem findFrom?_of_front? {text : List Char} (h : p.front? before text = some e) (start : Nat) :
    p.findFrom? start before text = some {
      start
      length := text.length - e.after.length
      picked := e.picked.map fun part => between part.1 part.2 } := by
  cases text <;> rw [findFrom?, h]

end Pattern

namespace Instruction

open Pattern Phrase

variable {before : Option Char} {picked : Option (List Char × List Char)}
  {front title rest : List Char}

-- The quotes that may stand around a title: an opening one and the one that closes it.
def quotePairs : List (Char × Char) := [('"', '"'), ('“', '”'), ('\'', '\''), ('‘', '’')]

theorem quoted_eq :
    quoted = anyOf (quotePairs.map fun quotes => quotedBy quotes.1 quotes.2) := rfl

-- A title in quotes goes on as far as the closing quote.
theorem head?_ends_quotedBy {opening closing : Char} (hopening : Text.fold opening = opening)
    (hclosing : Text.fold closing = closing) (hne : title ≠ []) (hfree : closing ∉ title) :
    ((quotedBy opening closing).ends
      ⟨before, opening :: (title ++ closing :: rest), picked⟩).head? =
      some ⟨some closing, rest, some (title ++ closing :: rest, closing :: rest)⟩ := by
  let start : Cursor := ⟨before, opening :: (title ++ closing :: rest), picked⟩
  let inside : Cursor := ⟨some opening, title ++ closing :: rest, picked⟩
  let stop : Cursor :=
    ⟨title.getLast?, closing :: rest, some (title ++ closing :: rest, closing :: rest)⟩
  have hall : ∀ x ∈ title, (x != closing) = true := by
    intro x hx
    rw [bne_iff_ne]
    rintro rfl
    exact hfree hx
  have hfirst : ((letter opening).ends start).head? = some inside := by
    rw [ends_letter, if_pos hopening]
    rfl
  have hrun : ((some1 fun x => x != closing).ends inside).head? =
      some ⟨title.getLast?, closing :: rest, picked⟩ :=
    head?_ends_some1 hne hall (by simp)
  have hpick : ((pick (some1 fun x => x != closing)).ends inside).head? = some stop := by
    rw [ends, List.head?_map, hrun]
    rfl
  have hlast : ((letter closing).ends stop).head? =
      some ⟨some closing, rest, some (title ++ closing :: rest, closing :: rest)⟩ := by
    rw [ends_letter, if_pos hclosing]
    rfl
  exact head?_ends_append (head?_ends_append hfirst hpick) hlast

theorem ends_quotedBy_of_ne {x opening : Char} (closing : Char) (h : Text.fold x ≠ opening) :
    (quotedBy opening closing).ends ⟨before, x :: rest, picked⟩ = [] := by
  rw [quotedBy, ends_append, ends_append, ends_letter, if_neg h]
  rfl

theorem plain_of_mem_quotePairs {quotes : Char × Char} (hquotes : quotes ∈ quotePairs) :
    Text.fold quotes.1 = quotes.1 ∧ Text.fold quotes.2 = quotes.2 ∧
      Text.isBlank quotes.1 = false ∧ [':', '='].contains quotes.1 = false := by
  simp only [quotePairs, List.mem_cons, List.not_mem_nil, or_false] at hquotes
  rcases hquotes with rfl | rfl | rfl | rfl <;> decide

-- Of all quotes only those that open with the first sign can be meant.
theorem head?_ends_quoted {quotes : Char × Char} (hquotes : quotes ∈ quotePairs)
    (hne : title ≠ []) (hfree : quotes.2 ∉ title) :
    (quoted.ends ⟨before, quotes.1 :: (title ++ quotes.2 :: rest), picked⟩).head? =
      some ⟨some quotes.2, rest, some (title ++ quotes.2 :: rest, quotes.2 :: rest)⟩ := by
  obtain ⟨hopening, hclosing, -, -⟩ := plain_of_mem_quotePairs hquotes
  have hends := @head?_ends_quotedBy before picked title rest _ _ hopening hclosing hne hfree
  have hopenings : (quotePairs.map Prod.fst).Nodup := by decide
  have hothers : ∀ other ∈ quotePairs, other ≠ quotes → (quotedBy other.1 other.2).ends
      ⟨before, quotes.1 :: (title ++ quotes.2 :: rest), picked⟩ = [] := by
    intro other hother hdiffers
    apply ends_quotedBy_of_ne
    rw [hopening]
    intro hsame
    exact hdiffers (List.inj_on_of_nodup_map hopenings hother hquotes hsame.symm)
  rw [quoted_eq, ends_anyOf, List.flatMap_map, List.head?_flatMap, ← hends]
  cases hfound : quotePairs.findSome? _ with
  | none => exact (List.findSome?_eq_none_iff.mp hfound quotes hquotes).symm
  | some e =>
    obtain ⟨other, hother, he⟩ := List.exists_of_findSome?_eq_some hfound
    by_cases hsame : other = quotes
    · rw [← he, hsame]
    · rw [hothers other hother hsame] at he
      cases he

theorem toLower_of_fold {x c : Char} (hfold : Text.fold x = c) (hs : c ≠ 's') (hk : c ≠ 'k') :
    x.toLower = c := by
  rw [Text.fold] at hfold
  split at hfold
  · exact absurd hfold.symm hs
  · split at hfold
    · exact absurd hfold.symm hk
    · exact hfold

-- Among the letters only s and k have other forms than the two in ASCII.
theorem lowerAscii_of_fold {word letters : List Char} (h : word.map Text.fold = letters)
    (hs : 's' ∉ letters) (hk : 'k' ∉ letters) : Text.lowerAscii word = letters := by
  rw [← h, Text.lowerAscii]
  apply List.map_congr_left
  intro x hx
  have hmem : Text.fold x ∈ letters := h ▸ List.mem_map_of_mem hx
  exact toLower_of_fold rfl (ne_of_mem_of_not_mem hmem hs) (ne_of_mem_of_not_mem hmem hk)

theorem isWord_of_mem_titled {word : List Char} (h : word.map Text.fold = "titled".toList)
    {x : Char} (hx : x ∈ word) : Text.isWord x = true := by
  have hmem : Text.fold x ∈ "titled".toList := h ▸ List.mem_map_of_mem hx
  have hletters : "titled".toList.all Char.isAlphanum = true := by decide
  exact Text.isWord_of_fold rfl (List.all_eq_true.mp hletters _ hmem)

-- No title is announced in a text that does not hold the word for it, nor at its end, unless a word
-- goes on beyond it.
theorem front?_eq_none {x : Char} {passed more text : List Char} {q r : Pattern}
    (hfree : ¬"titled".toList <:+: Text.lowerAscii (passed ++ x :: more))
    (hlast : ∀ c ∈ (x :: more).getLast?, Text.isWord c = false) :
    (edge ++ lit "titled" ++ q ++ r).front? before (x :: more ++ text) = none := by
  rw [Option.eq_none_iff_forall_not_mem]
  intro e he
  obtain ⟨_, hfound, _, tail, rfl, ⟨_, signs, rfl, ⟨_, word, rfl, ⟨rfl, -⟩, hword⟩, -⟩, -⟩ :=
    spells_of_front? he
  have hword := spells_letters.mp hword
  rw [List.nil_append, List.append_assoc, List.append_assoc, List.append_eq_append_iff] at hfound
  rcases hfound with ⟨beyond, rfl, -⟩ | ⟨behind, hsplit, -⟩
  · have hlastMem := List.getLast_mem (List.cons_ne_nil x more)
    have hlastWord := isWord_of_mem_titled hword (List.mem_append_left beyond hlastMem)
    rw [hlast _ (List.getLast?_eq_some_getLast (List.cons_ne_nil x more))] at hlastWord
    cases hlastWord
  · apply hfree
    have hlower := lowerAscii_of_fold hword (by decide) (by decide)
    rw [hsplit, ← hlower]
    exact ⟨Text.lowerAscii passed, Text.lowerAscii behind, by simp [Text.lowerAscii]⟩

-- Between the word and the quotes there may be a blank.
theorem head?_ends_colon {quotes : Char × Char} (hquotes : quotes ∈ quotePairs) :
    (colon.ends ⟨before, ' ' :: quotes.1 :: rest, picked⟩).head? =
      some ⟨some ' ', quotes.1 :: rest, picked⟩ := by
  obtain ⟨-, -, hblank, hsign⟩ := plain_of_mem_quotePairs hquotes
  have hrun : (maybeBlanks.ends ⟨before, ' ' :: quotes.1 :: rest, picked⟩).head? =
      some ⟨some ' ', quotes.1 :: rest, picked⟩ :=
    head?_reach [' '] (List.forall_mem_singleton.mpr rfl) (by simpa using hblank)
  have hone : (oneOf [':', '=']).ends ⟨some ' ', quotes.1 :: rest, picked⟩ = [] := by
    rw [oneOf, ends]
    exact if_neg (ne_true_of_eq_false hsign)
  refine head?_ends_append hrun ?_
  rw [opt, ends_or, ends_append, hone]
  rfl

theorem front?_titled {quotes : Char × Char} (hquotes : quotes ∈ quotePairs)
    (hbefore : before.any Text.isWord = false) (hne : title ≠ []) (hfree : quotes.2 ∉ title) :
    (edge ++ lit "titled" ++ colon ++ quoted).front? before
        ("titled ".toList ++ quotes.1 :: (title ++ quotes.2 :: rest)) =
      some ⟨some quotes.2, rest, some (title ++ quotes.2 :: rest, quotes.2 :: rest)⟩ := by
  let start : Cursor :=
    ⟨before, "titled ".toList ++ quotes.1 :: (title ++ quotes.2 :: rest), none⟩
  have hedge : (edge.ends start).head? = some start := by
    have hstart : start.atEdge = true := by
      rw [Cursor.atEdge, hbefore]
      rfl
    rw [ends, if_pos hstart]
    rfl
  have hword : ((lit "titled").ends start).head? =
      some ⟨some 'd', ' ' :: quotes.1 :: (title ++ quotes.2 :: rest), none⟩ :=
    congrArg List.head? (ends_letters "titled".toList)
  have hcolon := head?_ends_append (head?_ends_append hedge hword) (head?_ends_colon hquotes)
  exact head?_ends_append hcolon (head?_ends_quoted hquotes hne hfree)

-- A title in quotes is the title, whatever there is before, inside and behind it.
theorem title?_titled (quotes : Char × Char) (front title rest : List Char)
    (hquotes : quotes ∈ quotePairs)
    (hfree : ¬"titled".toList <:+: Text.lowerAscii front)
    (hfront : ∀ c ∈ front.getLast?, Text.isWord c = false)
    (hclosing : quotes.2 ∉ title) (hne : Text.trim title ≠ [])
    (hword : String.ofList (Text.lowerAscii (Text.trim title)) ∉ titleStopwords) :
    title? (front ++ "titled ".toList ++ quotes.1 :: title ++ quotes.2 :: rest) =
      some (Text.trim title) := by
  have htext : front ++ "titled ".toList ++ quotes.1 :: title ++ quotes.2 :: rest =
      front ++ ("titled ".toList ++ quotes.1 :: (title ++ quotes.2 :: rest)) := by
    simp
  have htitle : title ≠ [] := by
    rintro rfl
    exact hne rfl
  have hbefore : (front.getLast?.or none).any Text.isWord = false := by
    cases hlast : front.getLast? with
    | none => rfl
    | some c => exact hfront c hlast
  have hnone : ∀ passed x more, front = passed ++ x :: more →
      (edge ++ lit "titled" ++ colon ++ quoted).front? (passed.getLast?.or none)
        (x :: more ++ ("titled ".toList ++ quotes.1 :: (title ++ quotes.2 :: rest))) = none := by
    rintro passed x more rfl
    refine front?_eq_none hfree ?_
    simpa using hfront
  have hfront? := @front?_titled _ title rest quotes hquotes hbefore htitle hclosing
  have htitleBy : titleBy? (edge ++ lit "titled" ++ colon ++ quoted)
      (front ++ "titled ".toList ++ quotes.1 :: title ++ quotes.2 :: rest) =
      some (Text.trim title) := by
    have hpicked : between (title ++ quotes.2 :: rest) (quotes.2 :: rest) = title :=
      between_append title _
    have hisTitle : isTitle (Text.trim title) = true := by
      simp [isTitle, hne, hword]
    rw [titleBy?, htext, find?, findFrom?_append hnone, findFrom?_of_front? hfront?]
    simp only [Option.bind_some, Option.map_some, hpicked]
    exact Option.filter_eq_some_iff.mpr ⟨rfl, hisTitle⟩
  rw [title?, titles, List.findSome?_cons, htitleBy]

-- What stands before, in and behind a title: other titles, and quotes of all sorts.
def crowdedTitle : List Char × List Char × List Char :=
  ("A new title: 'Other', or \"More\"; ".toList, " Bob's \"best\" card ".toList,
    " titled \"Last\"".toList)

theorem crowdedTitle_taken :
    ¬"titled".toList <:+: Text.lowerAscii crowdedTitle.1 ∧
      (∀ c ∈ crowdedTitle.1.getLast?, Text.isWord c = false) ∧ '”' ∉ crowdedTitle.2.1 ∧
      title? (crowdedTitle.1 ++ "titled ".toList ++ '“' :: crowdedTitle.2.1 ++
        '”' :: crowdedTitle.2.2) = some "Bob's \"best\" card".toList := by
  have hfree : ¬"titled".toList <:+: Text.lowerAscii crowdedTitle.1 := by
    intro hwithin
    have hletter : 'd' ∈ "titled".toList := by decide
    exact absurd (hwithin.subset hletter) (by decide)
  have hfront : ∀ c ∈ crowdedTitle.1.getLast?, Text.isWord c = false := by
    intro c hc
    obtain rfl := Option.some.inj hc
    decide
  have hclosing : '”' ∉ crowdedTitle.2.1 := by decide
  have htitle := title?_titled ('“', '”') crowdedTitle.1 crowdedTitle.2.1 crowdedTitle.2.2
    (by decide) hfree hfront hclosing (by decide) (by decide)
  exact ⟨hfree, hfront, hclosing, htitle⟩

end Instruction

end Wireframe
