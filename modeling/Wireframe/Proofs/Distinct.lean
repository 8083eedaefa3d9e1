import Wireframe.Proofs.Parsing

namespace Wireframe.Json

-- Every object at any depth has each key once.
inductive Distinct : Json → Prop
  | null : Distinct null
  | bool (b : Bool) : Distinct (bool b)
  | int (n : Int) : Distinct (int n)
  | float (x : Binary64) : Distinct (float x)
  | string (s : String) : Distinct (string s)
  | array {items : List Json} : (∀ item ∈ items, Distinct item) → Distinct (array items)
  | object {fields : Fields} :
    fields.keys.Nodup → (∀ entry ∈ fields, Distinct entry.2) → Distinct (object fields)

theorem Distinct.items {items : List Json} (h : (Json.array items).Distinct) :
    ∀ item ∈ items, item.Distinct := by
  cases h with
  | array hitems => exact hitems

theorem Distinct.fields {fields : Fields} (h : (Json.object fields).Distinct) :
    fields.keys.Nodup ∧ ∀ entry ∈ fields, entry.2.Distinct := by
  cases h with
  | object hkeys hvalues => exact ⟨hkeys, hvalues⟩

theorem OfNumber.distinct {json : Json} (h : json.OfNumber) : json.Distinct := by
  cases h with
  | int => exact .int _
  | float => exact .float _

theorem readable_distinct : Readable fun _ => Distinct where
  null := .null
  bool := .bool
  number := OfNumber.distinct
  string := .string
  array := .array
  object := .object

-- A key that comes again takes the place of the first, so that no key is there twice in what is
-- read.
theorem distinct_of_parse? {text : String} {json : Json} (h : parse? text = some json) :
    json.Distinct :=
  readable_distinct.of_parse? h

end Wireframe.Json
