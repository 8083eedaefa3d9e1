import Wireframe.Proofs.Extraction
import Wireframe.Proofs.FieldPhrases
import Wireframe.Proofs.Ledger

namespace Wireframe.Instruction

variable {limits : Limits} {text : List Char}

-- The clauses, each with the verb it stands under, without those that have none. `verb` is the last
-- one.
def voiced (verb : Option Verb) : List (List Char) → List (Verb × List Char)
  | [] => []
  | clause :: rest =>
    match (verb? clause).or verb with
    | some verb => (verb, clause) :: voiced (some verb) rest
    | none => voiced none rest

def Request.ofClauses (limits : Limits) (text : List Char) (clauses : List (Verb × List Char)) :
    Request :=
  clauses.foldl (fun request clause => request.extend limits text clause.1 clause.2) {}

theorem request_eq (limits : Limits) (text : List Char) :
    request limits text =
      (Request.ofClauses limits text
        (voiced none (piecesBetween Phrase.conjunction text))).settle := by
  have hread : ∀ clauses request verb, readClauses limits text request verb clauses =
      (voiced verb clauses).foldl (fun r clause => r.extend limits text clause.1 clause.2)
        request := by
    intro clauses
    induction clauses with
    | nil => intros; rfl
    | cons clause rest ih =>
      intro request verb
      rw [readClauses, voiced]
      cases (verb? clause).or verb with
      | none => exact ih ..
      | some verb => exact ih ..
  rw [request, hread, Request.ofClauses]

-- The kinds that can be meant under a verb.
def Verb.kinds : Verb → List ComponentKind
  | .remove => ComponentKind.all
  | .add => addable

-- The kinds that the clauses under a verb name.
def demandsOf (verb : Verb) (clauses : List (Verb × List Char)) : List ComponentKind :=
  clauses.filterMap fun clause => if clause.1 = verb then target? verb.kinds clause.2 else none

-- The kinds that a text demands to be removed, or to be added, in order and perhaps repeatedly.
def demands (verb : Verb) (text : List Char) : List ComponentKind :=
  demandsOf verb (voiced none (piecesBetween Phrase.conjunction text))

theorem demandsOf_append (verb : Verb) (first second : List (Verb × List Char)) :
    demandsOf verb (first ++ second) = demandsOf verb first ++ demandsOf verb second :=
  List.filterMap_append

theorem demandsOf_other {verb wanted : Verb} (h : verb ≠ wanted) (clause : List Char) :
    demandsOf wanted [(verb, clause)] = [] := by
  simp [demandsOf, h]

theorem demandsOf_same (verb : Verb) (clause : List Char) :
    demandsOf verb [(verb, clause)] = (target? verb.kinds clause).toList := by
  cases h : target? verb.kinds clause <;> simp [demandsOf, h]

theorem nodup_demandsOf_singleton (verb : Verb) (clause : Verb × List Char) :
    (demandsOf verb [clause]).Nodup := by
  obtain ⟨other, clause⟩ := clause
  by_cases h : other = verb
  · subst h
    rw [demandsOf_same]
    cases target? other.kinds clause <;> simp
  · rw [demandsOf_other h]
    exact List.nodup_nil

-- A target is of one of the kinds that are looked for.
theorem mem_of_target? {kinds : List ComponentKind} {clause : List Char} {kind : ComponentKind}
    (h : target? kinds clause = some kind) : kind ∈ kinds := by
  have hforemost : ∀ {targets target}, foremost? targets = some target → target ∈ targets := by
    intro targets
    induction targets with
    | nil => exact nofun
    | cons first rest ih =>
      intro target htarget
      rw [foremost?] at htarget
      cases hrest : foremost? rest with
      | none =>
        rw [hrest] at htarget
        exact Option.some.inj htarget ▸ List.mem_cons_self
      | some other =>
        simp only [hrest] at htarget
        split at htarget
        · obtain rfl := Option.some.inj htarget
          exact List.mem_cons_of_mem _ (ih hrest)
        · exact Option.some.inj htarget ▸ List.mem_cons_self
  obtain ⟨target, htarget, rfl⟩ := Option.map_eq_some_iff.mp h
  obtain ⟨kind, hkind, hfound⟩ := List.mem_filterMap.mp (hforemost htarget)
  obtain ⟨found, -, rfl⟩ := Option.map_eq_some_iff.mp hfound
  exact hkind

theorem kind_additionOf {kind : ComponentKind} (h : kind ∈ addable) (limits : Limits)
    (text clause : List Char) : (additionOf limits text clause kind).kind = kind := by
  cases kind <;> first | rfl | exact absurd h (by decide)

namespace Request

def kinds (request : Request) : List ComponentKind := request.additions.map Addition.kind

theorem removals_remove (request : Request) (kind : ComponentKind) :
    (request.remove kind).removals =
      if kind ∈ request.removals then request.removals else request.removals ++ [kind] := by
  rw [remove]
  by_cases h : kind ∈ request.removals <;> simp [h]

theorem kinds_remove (request : Request) (kind : ComponentKind) :
    (request.remove kind).kinds = request.kinds := by
  rw [remove]
  split <;> rfl

theorem removals_add (request : Request) (addition : Addition) :
    (request.add addition).removals = request.removals := by
  rw [add]
  split <;> rfl

theorem kinds_add (request : Request) (addition : Addition) :
    (request.add addition).kinds =
      if addition.kind ∈ request.kinds then request.kinds else request.kinds ++ [addition.kind] := by
  have hany : (request.additions.any fun a => a.kind == addition.kind) =
      decide (addition.kind ∈ request.kinds) := by
    rw [Bool.eq_iff_iff]
    simp [kinds]
  rw [add, hany]
  by_cases h : addition.kind ∈ request.kinds
  · rw [decide_eq_true h, if_pos rfl, if_pos h]
  · rw [decide_eq_false h, if_neg Bool.false_ne_true, if_neg h, kinds, List.map_append]
    rfl

-- A clause brings what it demands to be removed, unless it is to be removed already.
theorem removals_extend (request : Request) (verb : Verb) (clause : List Char) :
    (request.extend limits text verb clause).removals =
      request.removals ++ (demandsOf .remove [(verb, clause)]).filter fun kind =>
        !request.removals.contains kind := by
  cases verb with
  | add =>
    rw [demandsOf_other (by simp), List.filter_nil, List.append_nil, extend]
    cases target? addable clause with
    | none => rfl
    | some kind => exact removals_add ..
  | remove =>
    rw [demandsOf_same, extend, Verb.kinds]
    cases target? ComponentKind.all clause with
    | none => simp
    | some kind =>
      simp only [removals_remove]
      by_cases h : kind ∈ request.removals <;> simp [h]

theorem kinds_extend (request : Request) (verb : Verb) (clause : List Char) :
    (request.extend limits text verb clause).kinds =
      request.kinds ++ (demandsOf .add [(verb, clause)]).filter fun kind =>
        !request.kinds.contains kind := by
  cases verb with
  | remove =>
    rw [demandsOf_other (by simp), List.filter_nil, List.append_nil, extend]
    cases target? ComponentKind.all clause with
    | none => rfl
    | some kind => exact kinds_remove ..
  | add =>
    rw [demandsOf_same, extend, Verb.kinds]
    cases htarget : target? addable clause with
    | none => simp
    | some kind =>
      have hkind := kind_additionOf (mem_of_target? htarget) limits text clause
      simp only [kinds_add, hkind]
      by_cases h : kind ∈ request.kinds <;> simp [h]

theorem ofClauses_concat (limits : Limits) (text : List Char) (clauses : List (Verb × List Char))
    (clause : Verb × List Char) :
    ofClauses limits text (clauses ++ [clause]) =
      (ofClauses limits text clauses).extend limits text clause.1 clause.2 := by
  rw [ofClauses, List.foldl_append]
  rfl

theorem removals_ofClauses (limits : Limits) (text : List Char) (clauses : List (Verb × List Char)) :
    (ofClauses limits text clauses).removals = (demandsOf .remove clauses).eraseDups := by
  induction clauses using List.reverseRecOn with
  | nil => rfl
  | append_singleton clauses clause ih =>
    have hnodup := nodup_demandsOf_singleton .remove clause
    rw [ofClauses_concat, removals_extend, ih, demandsOf_append, Ledger.eraseDups_append_filter,
      Ledger.eraseDups_of_nodup hnodup]
    simp only [List.contains_eq_mem, List.mem_eraseDups]

theorem kinds_ofClauses (limits : Limits) (text : List Char) (clauses : List (Verb × List Char)) :
    (ofClauses limits text clauses).kinds = (demandsOf .add clauses).eraseDups := by
  induction clauses using List.reverseRecOn with
  | nil => rfl
  | append_singleton clauses clause ih =>
    have hnodup := nodup_demandsOf_singleton .add clause
    rw [ofClauses_concat, kinds_extend, ih, demandsOf_append, Ledger.eraseDups_append_filter,
      Ledger.eraseDups_of_nodup hnodup]
    simp only [List.contains_eq_mem, List.mem_eraseDups]

theorem kinds_settle (request : Request) :
    request.settle.kinds = request.kinds.filter fun kind => !request.removals.contains kind := by
  rw [kinds, kinds, List.filter_map]
  rfl

end Request

theorem removals_request (limits : Limits) (text : List Char) :
    (request limits text).removals = (demands .remove text).eraseDups := by
  rw [request_eq]
  exact Request.removals_ofClauses ..

-- What is demanded to be added is added, unless it is demanded to be removed.
theorem kinds_request (limits : Limits) (text : List Char) :
    (request limits text).kinds =
      (demands .add text).eraseDups.filter fun kind => !(demands .remove text).contains kind := by
  rw [request_eq, Request.kinds_settle, Request.kinds_ofClauses, Request.removals_ofClauses]
  simp [demands]

namespace Request

theorem mem_additions_extend {request : Request} {verb : Verb} {clause : List Char}
    {addition : Addition} (h : addition ∈ (request.extend limits text verb clause).additions) :
    addition ∈ request.additions ∨ ∃ kind, addition = additionOf limits text clause kind := by
  cases verb with
  | remove =>
    rw [extend] at h
    cases htarget : target? ComponentKind.all clause with
    | none =>
      rw [htarget] at h
      exact .inl h
    | some kind =>
      simp only [htarget, remove] at h
      split at h <;> exact .inl h
  | add =>
    rw [extend] at h
    cases htarget : target? addable clause with
    | none =>
      rw [htarget] at h
      exact .inl h
    | some kind =>
      simp only [htarget, add] at h
      split at h
      · exact .inl h
      · rcases List.mem_append.mp h with h | h
        · exact .inl h
        · exact .inr ⟨kind, List.mem_singleton.mp h⟩

-- What is added is what a clause of the text asks for.
theorem mem_additions_ofClauses {clauses : List (Verb × List Char)} {addition : Addition}
    (h : addition ∈ (ofClauses limits text clauses).additions) :
    ∃ clause kind, addition = additionOf limits text clause kind := by
  induction clauses using List.reverseRecOn with
  | nil => cases h
  | append_singleton clauses clause ih =>
    rw [ofClauses_concat] at h
    rcases mem_additions_extend h with h | ⟨kind, hkind⟩
    · exact ih h
    · exact ⟨clause.2, kind, hkind⟩

end Request

theorem inputs_of_mem_request {title : String} {inputs : List Field}
    (h : .modal title inputs ∈ (request limits text).additions) : inputs = modalInputs limits text := by
  rw [request_eq] at h
  obtain ⟨clause, kind, hkind⟩ := Request.mem_additions_ofClauses (List.mem_of_mem_filter h)
  cases kind with
  | modal => exact (Addition.modal.inj hkind).2
  | _ => cases hkind

-- The input at a place is the field that the text names there or, behind those, one to fill in.
theorem getElem?_modalInputs {place : Nat} (h : place < inputCount limits text) :
    (modalInputs limits text)[place]? =
      some (((fields text)[place]?).getD
        ⟨"Field " ++ toString (place + 1), "text", "Enter a value"⟩) := by
  rw [modalInputs]
  by_cases hnamed : place < (fields text).length
  · rw [List.getElem?_append_left (by rw [List.length_take]; omega), List.getElem?_take_of_lt h]
    simp [hnamed]
  · have hle : (fields text).length ≤ place := Nat.le_of_not_lt hnamed
    have htake : (fields text).take (inputCount limits text) = fields text :=
      List.take_of_length_le (by omega)
    have hrest : (List.range' ((fields text).length + 1)
          (inputCount limits text - (fields text).length))[place - (fields text).length]? =
        some (place + 1) := by
      rw [List.getElem?_range' (by omega)]
      congr 1
      omega
    rw [htake, List.getElem?_append_right hle, List.getElem?_map, hrest,
      List.getElem?_eq_none hle]
    rfl

-- What is so of any request that is read from a text. An added dialog has the inputs that the text
-- asks for: the fields that it names, in their order, and fillers with their places behind those.
structure Request.WellFormed (limits : Limits) (text : List Char) (request : Request) : Prop where
  removals : request.removals.Nodup
  kinds : request.kinds.Nodup
  disjoint : ∀ kind ∈ request.kinds, kind ∉ request.removals
  length : ∀ title inputs, .modal title inputs ∈ request.additions →
    inputs.length = inputCount limits text
  inputs : ∀ title inputs, .modal title inputs ∈ request.additions → ∀ place < inputs.length,
    inputs[place]? = some (((fields text)[place]?).getD
      ⟨"Field " ++ toString (place + 1), "text", "Enter a value"⟩)

theorem wellFormed_request (limits : Limits) (text : List Char) :
    (request limits text).WellFormed limits text ∧ Ranked (fields text) ∧
      inputCount limits text ≤ limits.maxModalInputs := by
  refine ⟨⟨?_, ?_, ?_, ?_, ?_⟩, ranked_fields text, inputCount_le limits text⟩
  · rw [removals_request]
    exact Ledger.nodup_eraseDups _
  · rw [kinds_request]
    exact (Ledger.nodup_eraseDups _).filter _
  · rw [kinds_request, removals_request]
    intro kind hkind
    simpa using (List.mem_filter.mp hkind).2
  · intro title inputs h
    rw [inputs_of_mem_request h]
    exact length_modalInputs limits text
  · intro title inputs h place hplace
    rw [inputs_of_mem_request h] at hplace ⊢
    rw [length_modalInputs] at hplace
    exact getElem?_modalInputs hplace

end Wireframe.Instruction
