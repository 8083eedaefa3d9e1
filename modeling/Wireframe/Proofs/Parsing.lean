import Mathlib.Algebra.Group.Int.Defs
import Mathlib.Algebra.Group.Nat.Defs
import Wireframe.Json.Parser
import Wireframe.Proofs.Ledger

namespace Wireframe.Json

-- What a number in a text is read as.
inductive OfNumber : Json → Prop
  | int {n : Int} (hlow : -2 ^ 63 ≤ n) (hhigh : n < 2 ^ 64) : OfNumber (int n)
  | float {negative : Bool} {n : Nat} {e : Int} {x : Binary64} (hn : n < wordBound)
      (hfloat : floatOf? negative n e = some x) : OfNumber (float x)

theorem appendDigit?_eq_some {n next : Nat} {c : Char} (h : appendDigit? n c = some next) :
    next < wordBound ∧ next = 10 * n + Text.asciiValue c := by
  rw [appendDigit?] at h
  split at h
  · next hbound =>
    cases h
    exact ⟨hbound, rfl⟩
  · cases h

theorem wholePart_lt {n : Nat} (hn : n < wordBound) (digits : List Char) :
    (wholePart n digits).1 < wordBound := by
  induction digits generalizing n with
  | nil => exact hn
  | cons c rest ih =>
    rw [wholePart]
    split
    · next hnext => exact ih (appendDigit?_eq_some hnext).1
    · exact hn

theorem fractionPart_lt {n : Nat} (hn : n < wordBound) (count : Nat) (digits : List Char) :
    (fractionPart n count digits).1 < wordBound := by
  induction digits generalizing n count with
  | nil => exact hn
  | cons c rest ih =>
    rw [fractionPart]
    split
    · next hnext => exact ih (appendDigit?_eq_some hnext).1 _
    · exact hn

theorem ofNumber_of_bind {negative : Bool} {n : Nat} {e : Int} {rest rest' : List Char}
    {json : Json} (hn : n < wordBound)
    (h : ((floatOf? negative n e).bind fun x => some (float x, rest)) = some (json, rest')) :
    json.OfNumber := by
  obtain ⟨x, hx, ⟨⟩⟩ := Option.bind_eq_some_iff.mp h
  exact .float hn hx

theorem ofNumber_of_unsigned? {negative : Bool} {text rest : List Char} {json : Json}
    (h : unsigned? negative text = some (json, rest)) : json.OfNumber := by
  have hword : (0 : Nat) < wordBound := by rw [wordBound]; decide
  simp only [unsigned?, Option.bind_eq_bind, Option.pure_def] at h
  have hwhole := wholePart_lt hword (text.takeWhile Char.isDigit)
  split at h
  · cases h
  · split at h
    · split at h
      · cases h
      · obtain ⟨exponent, -, h⟩ := Option.bind_eq_some_iff.mp h
        exact ofNumber_of_bind (fractionPart_lt hwhole _ _) h
    · obtain ⟨⟨exponent, _⟩, -, h⟩ := Option.bind_eq_some_iff.mp h
      split at h
      · exact ofNumber_of_bind hwhole h
      · split at h
        · exact ofNumber_of_bind hwhole h
        · have hsize : wordBound = 2 ^ 64 := by unfold wordBound; decide
          split at h
          · cases h
            exact .int (by omega) (by omega)
          · split at h
            · exact ofNumber_of_bind hwhole h
            · next hsmall =>
              cases h
              simp only [hsize, Bool.or_eq_true, beq_iff_eq, decide_eq_true_eq, not_or] at hsmall
              exact .int (by omega) (by omega)

theorem ofNumber_of_number? {text rest : List Char} {json : Json}
    (h : number? text = some (json, rest)) : json.OfNumber := by
  rw [number?.eq_def] at h
  split at h <;> exact ofNumber_of_unsigned? h

-- A property of values that may nest so many levels, as reading builds them.
structure Readable (P : Nat → Json → Prop) : Prop where
  null {depth : Nat} : P depth null
  bool {depth : Nat} (b : Bool) : P depth (bool b)
  number {depth : Nat} {json : Json} : json.OfNumber → P depth json
  string {depth : Nat} (s : String) : P depth (string s)
  array {depth : Nat} {items : List Json} : (∀ item ∈ items, P depth item) →
    P (depth + 1) (array items)
  object {depth : Nat} {fields : Fields} : (Ledger.keys fields).Nodup →
    (∀ entry ∈ fields, P depth entry.2) → P (depth + 1) (object fields)

-- What is read with some fuel keeps to the property, if what has been read before does.
structure Reads (P : Nat → Json → Prop) (fuel : Nat) : Prop where
  value : ∀ {depth text json rest}, value? fuel depth text = some (json, rest) → P depth json
  items : ∀ {depth read text items rest}, (∀ item ∈ read, P depth item) →
    items? fuel depth read text = some (items, rest) → ∀ item ∈ items, P depth item
  fields : ∀ {depth read text fields rest},
    (Ledger.keys read).Nodup → (∀ entry ∈ read, P depth entry.2) →
    fields? fuel depth read text = some (fields, rest) →
      (Ledger.keys fields).Nodup ∧ ∀ entry ∈ fields, P depth entry.2

namespace Readable

variable {P : Nat → Json → Prop} (hP : Readable P)

include hP

theorem reads (fuel : Nat) : Reads P fuel := by
  have hnoKeys : (Ledger.keys ([] : Fields)).Nodup := .nil
  induction fuel with
  | zero => exact ⟨nofun, nofun, nofun⟩
  | succ fuel ih =>
    refine ⟨?_, ?_, ?_⟩
    · intro depth text json rest h
      rw [value?.eq_def] at h
      dsimp only at h
      split at h
      · obtain ⟨_, -, ⟨⟩⟩ := Option.map_eq_some_iff.mp h
        exact hP.string _
      · split at h
        · cases h
        · split at h
          · cases h
            exact hP.array (List.forall_mem_nil _)
          · obtain ⟨⟨items, _⟩, hitems, ⟨⟩⟩ := Option.map_eq_some_iff.mp h
            exact hP.array (ih.items (List.forall_mem_nil _) hitems)
      · split at h
        · cases h
        · split at h
          · cases h
            exact hP.object hnoKeys (List.forall_mem_nil _)
          · obtain ⟨⟨fields, _⟩, hfields, ⟨⟩⟩ := Option.map_eq_some_iff.mp h
            obtain ⟨hkeys, hvalues⟩ := ih.fields hnoKeys (List.forall_mem_nil _) hfields
            exact hP.object hkeys hvalues
      · obtain ⟨_, -, ⟨⟩⟩ := Option.map_eq_some_iff.mp h
        exact hP.bool true
      · obtain ⟨_, -, ⟨⟩⟩ := Option.map_eq_some_iff.mp h
        exact hP.bool false
      · obtain ⟨_, -, ⟨⟩⟩ := Option.map_eq_some_iff.mp h
        exact hP.null
      · exact hP.number (ofNumber_of_number? h)
    · intro depth read text items rest hread h
      rw [items?] at h
      split at h
      · cases h
      · next item rest hitem =>
        have hmore := List.forall_mem_cons.mpr ⟨ih.value hitem, hread⟩
        split at h
        · exact ih.items hmore h
        · cases h
          exact fun item hitem => hmore item (List.mem_reverse.mp hitem)
        · cases h
    · intro depth read text fields rest hkeys hvalues h
      rw [fields?] at h
      split at h
      · split at h
        · cases h
        · next key _ _ =>
          split at h
          · split at h
            · cases h
            · next value _ hvalue =>
              have hmoreKeys := Ledger.nodup_keys_insert hkeys key value
              have hmore : ∀ entry ∈ Ledger.insert read key value, P depth entry.2 := by
                intro entry hentry
                rcases Ledger.mem_of_mem_insert hentry with hold | rfl
                · exact hvalues entry hold
                · exact ih.value hvalue
              split at h
              · exact ih.fields hmoreKeys hmore h
              · cases h
                exact ⟨hmoreKeys, hmore⟩
              · cases h
          · cases h
      · cases h

theorem of_parse? {text : String} {json : Json} (h : parse? text = some json) :
    P maxDepth json := by
  rw [parse?] at h
  split at h
  · next hvalue =>
    split at h
    · cases h
      exact (hP.reads _).value hvalue
    · cases h
  · cases h

end Readable

end Wireframe.Json
