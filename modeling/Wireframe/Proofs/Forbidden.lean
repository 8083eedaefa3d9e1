import Wireframe.Plan.Basic
import Wireframe.Plan.Forbidden

namespace Wireframe

-- A key that is one of the forbidden ones up to the case of its ASCII letters.
def ForbiddenKey (key : String) : Prop :=
  ∃ name ∈ forbiddenKeys, Text.lowerAscii key.toList = Text.lowerAscii name.toList

theorem isForbiddenKey_iff (key : String) : isForbiddenKey key = true ↔ ForbiddenKey key := by
  -- the forbidden keys are listed in lower case
  have hlower : ∀ name ∈ forbiddenKeys, Text.lowerAscii name.toList = name.toList := by decide
  rw [isForbiddenKey, List.contains_iff_mem]
  constructor
  · intro hmem
    refine ⟨_, hmem, ?_⟩
    rw [hlower _ hmem, String.toList_ofList]
  · rintro ⟨name, hmem, hsame⟩
    rwa [hsame, hlower name hmem, String.ofList_toList]

instance (key : String) : Decidable (ForbiddenKey key) :=
  decidable_of_iff _ (isForbiddenKey_iff key)

namespace Json

mutual

-- The keys of all objects in a value: a key comes before the keys in its value, and these before
-- the next key.
def keys : Json → List String
  | array items => keysInItems items
  | object fields => keysInFields fields
  | _ => []

def keysInItems : List Json → List String
  | [] => []
  | item :: rest => keys item ++ keysInItems rest

def keysInFields : List (String × Json) → List String
  | [] => []
  | (key, value) :: rest => key :: (keys value ++ keysInFields rest)

end

mutual

theorem forbidden?_eq_find? : ∀ json : Json, forbidden? json = (keys json).find? isForbiddenKey
  | array items => by rw [forbidden?, keys, forbiddenInItems?_eq_find? items]
  | object fields => by rw [forbidden?, keys, forbiddenInFields?_eq_find? fields]
  | null => rfl
  | bool _ => rfl
  | int _ => rfl
  | float _ => rfl
  | string _ => rfl

theorem forbiddenInItems?_eq_find? :
    ∀ items : List Json, forbiddenInItems? items = (keysInItems items).find? isForbiddenKey
  | [] => rfl
  | item :: rest => by
    rw [forbiddenInItems?, keysInItems, List.find?_append, forbidden?_eq_find? item,
      forbiddenInItems?_eq_find? rest]

-- The search goes through all keys in their order.
theorem forbiddenInFields?_eq_find? :
    ∀ fields : List (String × Json),
      forbiddenInFields? fields = (keysInFields fields).find? isForbiddenKey
  | [] => rfl
  | (key, value) :: rest => by
    rw [forbiddenInFields?, keysInFields, List.find?_cons, List.find?_append,
      forbidden?_eq_find? value, forbiddenInFields?_eq_find? rest]
    cases isForbiddenKey key <;> rfl

end

theorem forbiddenInFields?_eq_none_iff (fields : Fields) :
    forbiddenInFields? fields = none ↔ ∀ key ∈ keysInFields fields, ¬ ForbiddenKey key := by
  rw [forbiddenInFields?_eq_find?, List.find?_eq_none]
  simp only [isForbiddenKey_iff]

-- A key is found if it is the first forbidden one.
theorem forbiddenInFields?_eq_some_iff (fields : Fields) (key : String) :
    forbiddenInFields? fields = some key ↔
      ForbiddenKey key ∧ ∃ before after, keysInFields fields = before ++ key :: after ∧
        ∀ earlier ∈ before, ¬ ForbiddenKey earlier := by
  rw [forbiddenInFields?_eq_find?, List.find?_eq_some_iff_append, isForbiddenKey_iff]
  simp only [Bool.not_eq_true', ← Bool.not_eq_true, isForbiddenKey_iff]

end Json

end Wireframe
