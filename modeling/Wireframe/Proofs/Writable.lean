import Wireframe.Plan.Forbidden
import Wireframe.Proofs.FloatText

namespace Wireframe.Json

-- Numbers that the reader knows, objects that have each key once, and no more than so many levels
-- of nesting.
inductive Writable : Nat → Json → Prop
  | null {depth : Nat} : Writable depth null
  | bool {depth : Nat} (b : Bool) : Writable depth (bool b)
  | int {depth : Nat} {n : Int} (hlow : -2 ^ 63 ≤ n) (hhigh : n < 2 ^ 64) : Writable depth (int n)
  | float {depth : Nat} {x : Binary64} (hproper : x.Proper) : Writable depth (float x)
  | string {depth : Nat} (s : String) : Writable depth (string s)
  | array {depth : Nat} {items : List Json} : (∀ item ∈ items, Writable depth item) →
    Writable (depth + 1) (array items)
  | object {depth : Nat} {fields : Fields} : (Ledger.keys fields).Nodup →
    (∀ entry ∈ fields, Writable depth entry.2) → Writable (depth + 1) (object fields)

theorem readable_writable : Readable Writable where
  null := .null
  bool := .bool
  number
    | .int hlow hhigh => .int hlow hhigh
    | .float hn hfloat => .float (proper_of_floatOf? _ hn hfloat)
  string := .string
  array := .array
  object := .object

variable {depth : Nat} {json : Json}

theorem Writable.succ (h : json.Writable depth) : json.Writable (depth + 1) := by
  induction h with
  | null => exact .null
  | bool b => exact .bool b
  | int hlow hhigh => exact .int hlow hhigh
  | float hproper => exact .float hproper
  | string s => exact .string s
  | array _ ih => exact .array ih
  | object hkeys _ ih => exact .object hkeys ih

theorem Writable.mono {more : Nat} (h : json.Writable depth) (hle : depth ≤ more) :
    json.Writable more := by
  induction hle with
  | refl => exact h
  | step _ ih => exact ih.succ

theorem Writable.depth_le (h : json.Writable depth) : json.depth ≤ depth := by
  induction h with
  | null | bool _ | int _ _ | float _ | string _ => exact Nat.zero_le _
  | array _ ih =>
    rw [Json.depth]
    exact Nat.succ_le_succ (depthOfItems_le_iff.mpr ih)
  | object _ _ ih =>
    rw [Json.depth]
    exact Nat.succ_le_succ (depthOfFields_le_iff.mpr ih)

theorem Writable.items {items : List Json} (h : (Json.array items).Writable (depth + 1)) :
    ∀ item ∈ items, item.Writable depth := by
  cases h with
  | array hitems => exact hitems

theorem Writable.fields {fields : Fields} (h : (Json.object fields).Writable (depth + 1)) :
    ∀ entry ∈ fields, entry.2.Writable depth := by
  cases h with
  | object _ hvalues => exact hvalues

theorem Writable.strings {depth : Nat} (items : List String) :
    (Json.strings items).Writable (depth + 1) :=
  .array (List.forall_mem_map.mpr fun s _ => .string s)

-- What a number is read as when it has been written.
def rereadFloat (x : Binary64) : Binary64 :=
  match number? (printFloat x) with
  | some (float y, _) => y
  | _ => x

mutual

-- What a value is read as when it has been written.
def reread : Json → Json
  | float x => float (rereadFloat x)
  | array items => array (rereadItems items)
  | object fields => object (rereadFields fields)
  | json => json

def rereadItems : List Json → List Json
  | [] => []
  | item :: rest => item.reread :: rereadItems rest

def rereadFields : List (String × Json) → List (String × Json)
  | [] => []
  | (key, value) :: rest => (key, value.reread) :: rereadFields rest

end

theorem rereadItems_eq (items : List Json) : rereadItems items = items.map reread := by
  induction items with
  | nil => rfl
  | cons item rest ih => rw [rereadItems, ih, List.map_cons]

theorem rereadFields_eq (fields : Fields) :
    rereadFields fields = Ledger.mapValues reread fields := by
  induction fields with
  | nil => rfl
  | cons entry rest ih =>
    rw [rereadFields, ih]
    rfl

theorem readsAs_float (style : Style) {x : Binary64} (hproper : x.Proper) :
    ReadsAs style (float x) (float (rereadFloat x)) := by
  obtain ⟨y, hy⟩ := exists_number?_printFloat hproper
  have hsame : rereadFloat x = y := by
    have hread := hy (show Ends [] from nofun)
    rw [List.append_nil] at hread
    rw [rereadFloat, hread]
  rw [hsame]
  exact readsAs_number (fun _ => by rw [print]; exact exists_printFloat_eq_cons x)
    fun _ _ hends => by rw [print]; exact hy hends

theorem Writable.readsAs {style : Style} (hstyle : style.Blank) (h : json.Writable depth) :
    ReadsAs style json json.reread := by
  induction h with
  | null => exact readsAs_null style
  | bool b => exact readsAs_bool style b
  | int hlow hhigh => exact readsAs_int style hlow hhigh
  | float hproper => exact readsAs_float style hproper
  | string s => exact readsAs_string style s
  | array _ ih =>
    rw [reread, rereadItems_eq]
    exact readsAs_array hstyle ih
  | object hkeys _ ih =>
    rw [reread, rereadFields_eq]
    exact readsAs_object hstyle hkeys ih

theorem Writable.parse?_pretty (h : json.Writable maxDepth) :
    parse? json.pretty = some json.reread :=
  parse?_of_readsAs (h.readsAs Style.blank_pretty) h.depth_le

mutual

-- No key is lost or made.
theorem forbidden?_reread (json : Json) : json.reread.forbidden? = json.forbidden? := by
  cases json with
  | array items => rw [reread, forbidden?, forbidden?, forbiddenInItems?_reread]
  | object fields => rw [reread, forbidden?, forbidden?, forbiddenInFields?_reread]
  | _ => rfl

theorem forbiddenInItems?_reread (items : List Json) :
    forbiddenInItems? (rereadItems items) = forbiddenInItems? items := by
  cases items with
  | nil => rfl
  | cons item rest =>
    rw [rereadItems, forbiddenInItems?, forbiddenInItems?, forbidden?_reread item,
      forbiddenInItems?_reread rest]

theorem forbiddenInFields?_reread (fields : List (String × Json)) :
    forbiddenInFields? (rereadFields fields) = forbiddenInFields? fields := by
  match fields with
  | [] => rfl
  | (key, value) :: rest =>
    rw [rereadFields, forbiddenInFields?, forbiddenInFields?, forbidden?_reread value,
      forbiddenInFields?_reread rest]

end

end Wireframe.Json
