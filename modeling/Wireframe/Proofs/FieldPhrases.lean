import Mathlib.Data.List.Nodup
import Wireframe.Instruction.Field
import Wireframe.Proofs.Stretches

namespace Wireframe.Instruction

open Pattern

variable {text : List Char}

theorem opens_plural {word : String} (h : word.toList.head?.any Char.isAlphanum = true) :
    (Phrase.plural word).Opens :=
  (opens_lit h).append _

theorem closes_plural {word : String} (h : word.toList.getLast?.any Char.isAlphanum = true) :
    (Phrase.plural word).Closes :=
  (closes_lit h).append_opt (closes_lit (by decide))

theorem compact_plural {word : String} (hne : word.toList ≠ [])
    (hall : word.toList.all Char.isAlphanum = true) : (Phrase.plural word).Compact :=
  (compact_lit hne hall).append_opt (compact_lit (by decide) (by decide))

-- What stands before blanks is a stretch, and what stands behind them is one.
theorem hasStretch_of_blanks {before : Option Char} {gap after core back : List Char}
    (hgap : blanks.Spells before gap after) : HasStretch none (core ++ (gap ++ back)) core := by
  obtain ⟨hne, hblank⟩ := spells_some1.mp hgap
  obtain ⟨c, rest, rfl⟩ := List.exists_cons_of_ne_nil hne
  have hafter : Text.isWord c = false := Text.not_isWord_of_isBlank (hblank c List.mem_cons_self)
  exact ⟨[], c :: rest ++ back, rfl, rfl, hafter⟩

theorem hasStretch_behind_blanks {before : Option Char} {gap after core front : List Char}
    (hgap : blanks.Spells before gap after) : HasStretch none (front ++ gap ++ core) core := by
  obtain ⟨hne, hblank⟩ := spells_some1.mp hgap
  refine ⟨front ++ gap, [], by simp, ?_, rfl⟩
  rw [Option.or_none, List.getLast?_append_of_ne_nil _ hne, List.getLast?_eq_some_getLast hne]
  exact Text.not_isWord_of_isBlank (hblank _ (List.getLast_mem hne))

theorem takesWords_confirmPassword : Phrase.confirmPassword.TakesWords := by
  apply takesWords_whole
  · exact (((opens_lit (by decide)).append _).append _).append _
  · exact (closes_lit (by decide)).append _

theorem compact_mail : (lit "e" ++ opt (lit "-") ++ lit "mail").Compact where
  opens := ((opens_lit (by decide)).append _).append _
  closes := (closes_lit (by decide)).append _
  unspaced := by decide
  edgeless := by decide

theorem compact_mails :
    (lit "e" ++ opt (lit "-") ++ lit "mail" ++ opt (litOf ["es", "s"])).Compact where
  opens := compact_mail.opens.append _
  closes := compact_mail.closes.append_opt (closes_litOf (by decide))
  unspaced := by decide
  edgeless := by decide

theorem takesWords_email : Phrase.email.TakesWords := by
  apply takesWords_whole
  · exact (compact_mail.opens.append _).append _
  · apply Closes.append_opt
    · exact compact_mail.closes.append_opt ((closes_lit (by decide)).append _)
    · exact closes_litOf (by decide)

-- An e-mail address is an e-mail as well.
theorem rooted_email : Phrase.email.Rooted := by
  apply rooted_whole
  rintro before _ after ⟨_, suffix, rfl, ⟨mail, _, rfl, hmail, haddress⟩, hsuffix⟩
  rcases haddress with ⟨gap, address, rfl, hgap, -⟩ | rfl
  · refine ⟨mail, compact_mail.solid hmail, ?_, fun before after => ?_⟩
    · rw [List.append_assoc, List.append_assoc]
      exact hasStretch_of_blanks hgap
    · have halone := hmail.of_spells compact_mail.edgeless before after
      exact ⟨mail, [], by simp, ⟨mail, [], by simp, halone, .inr rfl⟩, .inr rfl⟩
  · have hmails : Solid (mail ++ suffix) := compact_mails.solid ⟨mail, suffix, rfl, hmail, hsuffix⟩
    rw [List.append_nil]
    exact hasCore_self ⟨_, suffix, by simp, ⟨mail, [], by simp, hmail, .inr rfl⟩, hsuffix⟩ hmails
      (by decide)

theorem takesWords_userName :
    (whole (lit "user" ++ maybeBlanks ++ Phrase.plural "name")).TakesWords := by
  apply takesWords_whole
  · exact ((opens_lit (by decide)).append _).append _
  · exact (closes_plural (by decide)).append _

theorem takesWords_name :
    (whole (opt (lit "full" ++ blanks) ++ Phrase.plural "name")).TakesWords := by
  apply takesWords_whole
  · exact ((opens_lit (by decide)).append _).opt_append (opens_plural (by decide))
  · exact (closes_plural (by decide)).append _

-- A full name is a name.
theorem rooted_name : (whole (opt (lit "full" ++ blanks) ++ Phrase.plural "name")).Rooted := by
  apply rooted_whole
  have hcompact : (Phrase.plural "name").Compact := compact_plural (by decide) (by decide)
  rintro before _ after ⟨_, name, rfl, ⟨full, gap, rfl, -, hgap⟩ | rfl, hname⟩
  · refine ⟨name, hcompact.solid hname, hasStretch_behind_blanks hgap, fun before after => ?_⟩
    exact ⟨[], name, rfl, .inr rfl, hname.of_spells hcompact.edgeless before after⟩
  · exact hasCore_self ⟨[], name, rfl, .inr rfl, hname⟩ (hcompact.solid hname) (by decide)

theorem compact_phone : (litOf ["phone", "telephone", "mobile"]).Compact where
  opens := opens_litOf (by decide)
  closes := closes_litOf (by decide)
  unspaced := by decide
  edgeless := by decide

theorem takesWords_phone : Phrase.phone.TakesWords := by
  apply takesWords_whole
  · exact compact_phone.opens.append _
  · exact compact_phone.closes.append_opt ((closes_plural (by decide)).append _)

-- A phone number is a phone.
theorem rooted_phone : Phrase.phone.Rooted := by
  apply rooted_whole
  rintro before _ after ⟨phone, _, rfl, hphone, hnumber⟩
  refine ⟨phone, compact_phone.solid hphone, ?_, fun before after => ?_⟩
  · rcases hnumber with ⟨gap, number, rfl, hgap, -⟩ | rfl
    · exact hasStretch_of_blanks hgap
    · exact ⟨[], [], by simp, rfl, rfl⟩
  · have halone := hphone.of_spells compact_phone.edgeless before after
    exact ⟨phone, [], by simp, halone, .inr rfl⟩

theorem compact_message : (lit "message" ||| Phrase.plural "comment").Compact where
  opens := (opens_lit (by decide)).or (opens_plural (by decide))
  closes := (closes_lit (by decide)).or (closes_plural (by decide))
  unspaced := by decide
  edgeless := by decide

theorem takesWords_date : Phrase.date.TakesWords := by
  apply takesWords_whole
  · apply Opens.or
    · apply Opens.or
      · exact ((((opens_lit (by decide)).append _).append _).append _).append _
      · exact opens_lit (by decide)
    · exact opens_lit (by decide)
  · apply Closes.or
    · exact ((closes_lit (by decide)).append _).or (closes_lit (by decide))
    · exact closes_lit (by decide)

-- A date of birth is a date.
theorem rooted_date : Phrase.date.Rooted := by
  apply rooted_whole
  have hcompact : (lit "date").Compact := compact_lit (by decide) (by decide)
  rintro before part after ((hbirth | h) | h)
  · obtain ⟨_, birth, rfl, ⟨_, gap', rfl, ⟨_, word, rfl, ⟨date, gap, rfl, h, hgap⟩, -⟩, -⟩, -⟩ := hbirth
    refine ⟨date, hcompact.solid h, ?_, fun before after => ?_⟩
    · simp only [List.append_assoc]
      exact hasStretch_of_blanks hgap
    · exact .inr (h.of_spells hcompact.edgeless before after)
  · have hbirthday : (lit "birthday").Compact := compact_lit (by decide) (by decide)
    exact hasCore_self (.inl (.inr h)) (hbirthday.solid h) (by decide)
  · exact hasCore_self (.inr h) (hcompact.solid h) (by decide)

-- The rule for the field whose phrase may come into being.
def userName : FieldRule :=
  ⟨whole (lit "user" ++ maybeBlanks ++ Phrase.plural "name"), 1,
    ⟨"Username", "text", "Choose a username"⟩⟩

theorem takesWords_of_mem_fieldRules : ∀ rule ∈ fieldRules, rule.phrase.TakesWords := by
  simp only [fieldRules, List.forall_mem_cons]
  exact ⟨takesWords_confirmPassword, (compact_plural (by decide) (by decide)).takesWords_whole,
    takesWords_email, takesWords_userName, takesWords_name, takesWords_phone,
    (compact_lit (by decide) (by decide)).takesWords_whole, compact_message.takesWords_whole,
    (compact_lit (by decide) (by decide)).takesWords_whole, takesWords_date,
    List.forall_mem_nil _⟩

-- The rule in front is not rooted, but it is not in need of it either.
theorem rooted_of_mem_tail_fieldRules :
    ∀ rule ∈ fieldRules.tail, rule.field ≠ userName.field → rule.phrase.Rooted := by
  simp only [fieldRules, List.tail_cons, List.forall_mem_cons]
  exact ⟨fun _ => (compact_plural (by decide) (by decide)).rooted_whole, fun _ => rooted_email,
    fun h => absurd rfl h, fun _ => rooted_name, fun _ => rooted_phone,
    fun _ => (compact_lit (by decide) (by decide)).rooted_whole,
    fun _ => compact_message.rooted_whole,
    fun _ => (compact_lit (by decide) (by decide)).rooted_whole, fun _ => rooted_date,
    List.forall_mem_nil _⟩

theorem nodup_map_fieldRules :
    (fieldRules.map (·.field)).Nodup ∧ (fieldRules.map (·.rank)).Nodup := by
  decide

-- What is left of a text when the phrases of the rules are cut out one after the other.
def leftBy (rules : List FieldRule) (text : List Char) : List Char :=
  rules.foldl (fun text rule => rule.phrase.replaceAll [' '] text) text

theorem matchingRules_cons (text : List Char) (rule : FieldRule) (rest : List FieldRule) :
    matchingRules text (rule :: rest) =
      (if rule.phrase.occursIn text then [rule] else []) ++
        matchingRules (rule.phrase.replaceAll [' '] text) rest := by
  rw [matchingRules]
  cases hoccurs : rule.phrase.occursIn text with
  | true => rfl
  | false =>
    rw [replaceAll_eq_self hoccurs]
    rfl

theorem matchingRules_append (text : List Char) (early late : List FieldRule) :
    matchingRules text (early ++ late) =
      matchingRules text early ++ matchingRules (leftBy early text) late := by
  induction early generalizing text with
  | nil => rfl
  | cons rule early ih =>
    rw [List.cons_append, matchingRules_cons, matchingRules_cons, ih, List.append_assoc]
    rfl

theorem matchingRules_sublist (text : List Char) (rules : List FieldRule) :
    (matchingRules text rules).Sublist rules := by
  induction rules generalizing text with
  | nil => exact .slnil
  | cons rule rest ih =>
    rw [matchingRules_cons]
    cases rule.phrase.occursIn text with
    | true => exact (ih _).cons_cons rule
    | false => exact (ih _).cons rule

theorem mem_fields_iff {field : Field} :
    field ∈ fields text ↔ ∃ rule ∈ matchingRules text fieldRules, rule.field = field := by
  simp [fields]

-- A field is named if its phrase occurs in what the rules before its own have left of the text.
theorem mem_fields_of_split {early late : List FieldRule} {rule : FieldRule}
    (hsplit : fieldRules = early ++ rule :: late) :
    rule.field ∈ fields text ↔ rule.phrase.occursIn (leftBy early text) = true := by
  obtain ⟨hnodup, -⟩ := nodup_map_fieldRules
  rw [hsplit, List.map_append, List.map_cons, List.nodup_append, List.nodup_cons] at hnodup
  obtain ⟨-, ⟨hlate, -⟩, hearly⟩ := hnodup
  rw [mem_fields_iff, hsplit, matchingRules_append, matchingRules_cons]
  constructor
  · rintro ⟨other, hother, hfield⟩
    rw [List.mem_append, List.mem_append] at hother
    rcases hother with hother | hother | hother
    · have hmem := List.mem_map_of_mem (f := (·.field)) ((matchingRules_sublist _ _).subset hother)
      exact absurd hfield (hearly _ hmem _ List.mem_cons_self)
    · by_contra hnot
      simp [hnot] at hother
    · have hmem := List.mem_map_of_mem (f := (·.field)) ((matchingRules_sublist _ _).subset hother)
      rw [hfield] at hmem
      exact absurd hmem hlate
  · intro hoccurs
    exact ⟨rule, by simp [hoccurs], rfl⟩

theorem occursIn_of_leftBy {p : Pattern} (hp : p.Rooted) {rules : List FieldRule}
    (hrules : ∀ rule ∈ rules, rule.phrase.TakesWords)
    (h : p.occursIn (leftBy rules text) = true) : p.occursIn text = true := by
  induction rules generalizing text with
  | nil => exact h
  | cons rule rest ih =>
    obtain ⟨hrule, hrest⟩ := List.forall_mem_cons.mp hrules
    exact hp.of_replaceAll hrule (ih hrest h)

theorem occursIn_of_mem_fields {rule : FieldRule} (hrule : rule ∈ fieldRules)
    (hother : rule.field ≠ userName.field) (h : rule.field ∈ fields text) :
    rule.phrase.occursIn text = true := by
  obtain ⟨early, late, hsplit⟩ := List.append_of_mem hrule
  have hleft := (mem_fields_of_split hsplit).mp h
  cases early with
  | nil => exact hleft
  | cons first early =>
    have htail : rule ∈ fieldRules.tail := by simp [hsplit]
    refine occursIn_of_leftBy (rooted_of_mem_tail_fieldRules rule htail hother) ?_ hleft
    intro other hmem
    apply takesWords_of_mem_fieldRules
    rw [hsplit]
    exact List.mem_append_left _ hmem

-- Fields of the table in the order of their ranks, none of them twice.
def Ranked (found : List Field) : Prop :=
  ∃ rules : List FieldRule, (∀ rule ∈ rules, rule ∈ fieldRules) ∧
    rules.Pairwise (fun a b => a.rank < b.rank) ∧ found = rules.map (·.field)

theorem ranked_fields (text : List Char) : Ranked (fields text) := by
  let rules := (matchingRules text fieldRules).mergeSort fun a b => a.rank ≤ b.rank
  have hperm : rules.Perm (matchingRules text fieldRules) := List.mergeSort_perm _ _
  have hsublist := matchingRules_sublist text fieldRules
  have hsorted : rules.Pairwise fun a b => a.rank ≤ b.rank := by
    have htrans : ∀ a b c : FieldRule, decide (a.rank ≤ b.rank) = true →
        decide (b.rank ≤ c.rank) = true → decide (a.rank ≤ c.rank) = true := by
      simp only [decide_eq_true_eq]
      omega
    have htotal : ∀ a b : FieldRule, (decide (a.rank ≤ b.rank) || decide (b.rank ≤ a.rank)) = true := by
      simp only [Bool.or_eq_true, decide_eq_true_eq]
      omega
    exact (List.pairwise_mergeSort htrans htotal _).imp of_decide_eq_true
  have hdistinct : (rules.map (·.rank)).Nodup := by
    rw [(hperm.map _).nodup_iff]
    exact nodup_map_fieldRules.2.sublist (hsublist.map _)
  refine ⟨rules, fun rule hrule => hsublist.subset (hperm.mem_iff.mp hrule), ?_, rfl⟩
  exact (hsorted.and (List.pairwise_map.mp hdistinct)).imp fun ⟨hle, hne⟩ => Nat.lt_of_le_of_ne hle hne

theorem nodup_fields (text : List Char) : (fields text).Nodup := by
  have hperm := (List.mergeSort_perm (matchingRules text fieldRules)
    fun a b => a.rank ≤ b.rank).map (·.field)
  have hsublist := (matchingRules_sublist text fieldRules).map (·.field)
  exact hperm.nodup_iff.mpr (nodup_map_fieldRules.1.sublist hsublist)

theorem userName_mem_fieldRules : userName ∈ fieldRules := by simp [fieldRules, userName]

-- The words of a user name come together only when passwords and e-mails are cut out of the text.
def Severed (text : List Char) : Prop :=
  userName.phrase.occursIn (leftBy (fieldRules.take 3) text) = true ∧
    userName.phrase.occursIn text = false

theorem userName_mem_fields_iff :
    userName.field ∈ fields text ↔
      userName.phrase.occursIn (leftBy (fieldRules.take 3) text) = true := by
  have hsplit : fieldRules = fieldRules.take 3 ++ userName :: fieldRules.drop 4 := rfl
  exact mem_fields_of_split hsplit

-- The fields of a text come in the order of their ranks, and each has its phrase in the text, except
-- for the user name, and for this one too unless its words are severed.
theorem fields_sound_iff_not_severed (text : List Char) :
    Ranked (fields text) ∧ (fields text).Nodup ∧
      (∀ rule ∈ fieldRules, rule.field ≠ userName.field → rule.field ∈ fields text →
        rule.phrase.occursIn text = true) ∧
      ((∀ rule ∈ fieldRules, rule.field ∈ fields text → rule.phrase.occursIn text = true) ↔
        ¬ Severed text) := by
  refine ⟨ranked_fields text, nodup_fields text, ?_, ?_, ?_⟩
  · exact fun rule hrule hother h => occursIn_of_mem_fields hrule hother h
  · rintro hsound ⟨hleft, hnot⟩
    have hoccurs := hsound userName userName_mem_fieldRules (userName_mem_fields_iff.mpr hleft)
    simp [hnot] at hoccurs
  · intro hjoined rule hrule h
    by_cases hother : rule.field = userName.field
    · obtain rfl := List.inj_on_of_nodup_map nodup_map_fieldRules.1 hrule userName_mem_fieldRules hother
      by_contra hnot
      exact hjoined ⟨userName_mem_fields_iff.mp h, Bool.eq_false_iff.mpr hnot⟩
    · exact occursIn_of_mem_fields hrule hother h

-- A password inside an e-mail address, and a user name.
def mixedForm : List Char := "email passwords address; USER  names".toList

theorem mixedForm_sound :
    ¬ Severed mixedForm ∧ userName.field ∈ fields mixedForm ∧
      userName.phrase.occursIn mixedForm = true := by
  have hjoined : ¬ Severed mixedForm := by
    rintro ⟨-, hnot⟩
    exact Bool.false_ne_true (hnot.symm.trans (by decide))
  have hnamed : userName.field ∈ fields mixedForm := userName_mem_fields_iff.mpr (by decide)
  have hsound := (fields_sound_iff_not_severed mixedForm).2.2.2.mpr hjoined
  exact ⟨hjoined, hnamed, hsound userName userName_mem_fieldRules hnamed⟩

-- A password that stands between the words of a user name.
def partedName : List Char := "user password name".toList

theorem partedName_has_userName :
    userName ∈ fieldRules ∧ userName.field ∈ fields partedName ∧
      userName.phrase.occursIn partedName = false :=
  ⟨userName_mem_fieldRules, userName_mem_fields_iff.mpr (by decide), by decide⟩

end Wireframe.Instruction
