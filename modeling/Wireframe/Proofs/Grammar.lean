import Mathlib.Algebra.Group.Int.Defs
import Mathlib.Data.List.Forall2
import Wireframe.Proofs.Forbidden
import Wireframe.Proofs.Ledger

namespace Wireframe

namespace Json

-- From the items of all lists in an object to the object.
theorem induct {motive : Json → Prop}
    (object : ∀ fields : Fields, (∀ key items, (key, array items) ∈ fields →
      ∀ item ∈ items, motive item) → motive (object fields))
    (other : ∀ json : Json, json.object? = none → motive json) : ∀ json, motive json
  | .object fields => object fields fun key items (_ : (key, array items) ∈ fields)
      item (_ : item ∈ items) => Json.induct object other item
  | .null => other _ rfl
  | .bool _ => other _ rfl
  | .int _ => other _ rfl
  | .float _ => other _ rfl
  | .string _ => other _ rfl
  | .array _ => other _ rfl
termination_by json => sizeOf json
decreasing_by
  have hitem := List.sizeOf_lt_of_mem ‹item ∈ items›
  have hentry := List.sizeOf_lt_of_mem ‹(key, array items) ∈ fields›
  simp only [Prod.mk.sizeOf_spec, array.sizeOf_spec, Json.object.sizeOf_spec] at *
  omega

end Json

namespace Plan

-- The entries of a node that say what it is.
structure HasHead (fields : Fields) (id : String) (kind : Kind) : Prop where
  keys : ∀ key ∈ fields.keys, key ∈ ["id", "type", "props", "children"]
  id : fields.get? "id" = some (.string id)
  type : fields.get? "type" = some (.string kind.name)

-- An entry that is not there or null.
def Unset (fields : Fields) (key : String) : Prop :=
  fields.get? key = none ∨ fields.get? key = some .null

-- The props that a node is given; it need not be given any.
inductive HasProps (fields : Fields) : Fields → Prop
  | unset : Unset fields "props" → HasProps fields []
  | given {props : Fields} : fields.get? "props" = some (.object props) → HasProps fields props

-- The children that a component is given; it need not be given any.
inductive HasParts (fields : Fields) : List Json → Prop
  | unset : Unset fields "children" → HasParts fields []
  | given {items : List Json} :
    fields.get? "children" = some (.array items) → HasParts fields items

-- Props of a component: no forbidden key at any depth.
def Clean (props : Fields) : Prop := ∀ key ∈ Json.keysInFields props, ¬ ForbiddenKey key

-- Null or a whole number of 32 bits.
inductive IsSetting : Json → Prop
  | null : IsSetting .null
  | word {n : Int} : 0 ≤ n → n < 2 ^ 32 → IsSetting (.int n)

-- Props of a layout.
def AreSettings (props : Fields) : Prop :=
  ∀ entry ∈ props, entry.1 ∈ ["gap", "padding", "columns"] ∧ IsSetting entry.2

inductive IsComponent : Json → Prop
  | intro {fields props : Fields} {id : String} {kind : ComponentKind} {items : List Json} :
    HasHead fields id (.component kind) → HasProps fields props → Clean props →
    HasParts fields items → (∀ item ∈ items, IsComponent item) → IsComponent (.object fields)

mutual

inductive IsNode : Json → Prop
  | layout {json : Json} : IsLayout json → IsNode json
  | component {json : Json} : IsComponent json → IsNode json

inductive IsLayout : Json → Prop
  | intro {fields props : Fields} {id : String} {kind : LayoutKind} {items : List Json} :
    HasHead fields id (.layout kind) → HasProps fields props → AreSettings props →
    fields.get? "children" = some (.array items) → (∀ item ∈ items, IsNode item) →
    IsLayout (.object fields)

end

inductive IsPlan : Json → Prop
  | intro {fields : Fields} {modification : String} {root : Json} :
    (∀ key ∈ fields.keys, key ∈ ["modificationType", "root"]) →
    fields.get? "modificationType" = some (.string modification) →
    modification ∈ ["create", "edit", "regenerate"] →
    fields.get? "root" = some root → IsLayout root → IsPlan (.object fields)

-- The numbers under the names of the settings.
def DenotesSpacing (props : Fields) (spacing : Spacing) : Prop :=
  AreSettings props ∧
    ∀ prop n, spacing.get prop = some n ↔ props.get? prop.name = some (.int n.toNat)

-- The node that is written down: the same id, kind, props and children.
inductive Denotes : Json → Node → Prop
  | layout {fields props : Fields} {id : String} {kind : LayoutKind} {spacing : Spacing}
      {items : List Json} {children : List Node} :
    HasHead fields id (.layout kind) → HasProps fields props → DenotesSpacing props spacing →
    fields.get? "children" = some (.array items) → List.Forall₂ Denotes items children →
    Denotes (.object fields) (.layout id kind spacing children)
  | component {fields props : Fields} {id : String} {kind : ComponentKind} {items : List Json}
      {parts : List Component} :
    HasHead fields id (.component kind) → HasProps fields props → Clean props →
    HasParts fields items →
    List.Forall₂ (fun item part => Denotes item (.component part)) items parts →
    Denotes (.object fields) (.component ⟨id, kind, props, parts⟩)

inductive DenotesPlan : Json → Plan → Prop
  | intro {fields : Fields} {plan : Plan} {root : Json} :
    (∀ key ∈ fields.keys, key ∈ ["modificationType", "root"]) →
    fields.get? "modificationType" = some (.string plan.modification.name) →
    fields.get? "root" = some root → Denotes root plan.root.toNode →
    DenotesPlan (.object fields) plan

variable {fields : Fields}

-- The number that a setting gives.
def word? : Json → Option UInt32
  | .int (.ofNat n) => if n < UInt32.size then some n.toUInt32 else none
  | _ => none

theorem word?_eq_some_iff {value : Json} {n : UInt32} :
    word? value = some n ↔ value = .int n.toNat := by
  constructor
  · intro h
    rw [word?.eq_def] at h
    split at h
    · next m =>
      split at h
      · next hlt =>
        cases h
        rw [Nat.toUInt32_eq, UInt32.toNat_ofNat_of_lt' hlt]
        rfl
      · cases h
    · cases h
  · rintro rfl
    have hword : word? (.int n.toNat) =
        if n.toNat < UInt32.size then some n.toNat.toUInt32 else none := rfl
    rw [hword, if_pos n.toNat_lt_size, Nat.toUInt32_eq, UInt32.ofNat_toNat]

-- The number that is given under a name.
theorem bind_word?_eq_some_iff {props : Fields} {name : String} {n : UInt32} :
    (props.get? name).bind word? = some n ↔ props.get? name = some (.int n.toNat) := by
  simp only [Option.bind_eq_some_iff, word?_eq_some_iff, exists_eq_right]

theorem exists_denotesSpacing {props : Fields} (hsettings : AreSettings props) :
    ∃ spacing, DenotesSpacing props spacing := by
  let number (prop : SpacingProp) : Option UInt32 := (props.get? prop.name).bind word?
  refine ⟨⟨number .gap, number .padding, number .columns⟩, hsettings, fun prop n => ?_⟩
  rw [← bind_word?_eq_some_iff]
  cases prop <;> rfl

-- A child is an item of a list in the object.
theorem exists_mem_of_hasParts {items : List Json} (hparts : HasParts fields items) :
    ∀ item ∈ items, ∃ key others, (key, Json.array others) ∈ fields ∧ item ∈ others := by
  cases hparts with
  | unset => exact nofun
  | given hgiven => exact fun item hitem => ⟨_, items, Ledger.mem_of_get? hgiven, hitem⟩

-- Children that are there have been given.
theorem get?_of_hasParts {items : List Json} {item : Json} (hparts : HasParts fields items)
    (hitem : item ∈ items) : fields.get? "children" = some (.array items) := by
  cases hparts with
  | unset => cases hitem
  | given hgiven => exact hgiven

theorem exists_forall₂_iff {α β : Type} {r : α → β → Prop} {items : List α} :
    (∃ others, List.Forall₂ r items others) ↔ ∀ item ∈ items, ∃ other, r item other := by
  induction items with
  | nil => exact iff_of_true ⟨[], .nil⟩ nofun
  | cons item rest ih =>
    rw [List.forall_mem_cons, ← ih]
    constructor
    · rintro ⟨_, (_ | ⟨hitem, hrest⟩)⟩
      exact ⟨⟨_, hitem⟩, _, hrest⟩
    · rintro ⟨⟨other, hitem⟩, others, hrest⟩
      exact ⟨other :: others, .cons hitem hrest⟩

theorem isComponent_iff_exists_denotes {json : Json} :
    IsComponent json ↔ ∃ c, Denotes json (.component c) := by
  induction json using Json.induct with
  | other json hother =>
    refine iff_of_false ?_ ?_
    · rintro ⟨⟩
      cases hother
    · rintro ⟨c, ⟨⟩⟩
      cases hother
  | object fields ih =>
    have hitems {items : List Json} (hparts : HasParts fields items) :
        (∀ item ∈ items, IsComponent item) ↔
          ∃ parts, List.Forall₂ (fun item part => Denotes item (.component part)) items parts := by
      rw [exists_forall₂_iff]
      refine forall₂_congr fun item hitem => ?_
      obtain ⟨key, others, hentry, hmem⟩ := exists_mem_of_hasParts hparts item hitem
      exact ih key others hentry item hmem
    constructor
    · rintro ⟨hhead, hprops, hclean, hparts, hcomponents⟩
      obtain ⟨parts, hdenotes⟩ := (hitems hparts).mp hcomponents
      exact ⟨_, .component hhead hprops hclean hparts hdenotes⟩
    · rintro ⟨c, hdenotes⟩
      cases hdenotes with
      | component hhead hprops hclean hparts hdenotes =>
        exact .intro hhead hprops hclean hparts ((hitems hparts).mpr ⟨_, hdenotes⟩)

-- A layout denotes something if its children do.
theorem isLayout_iff_of_items {json : Json}
    (hitems : ∀ fields items, json = .object fields → HasParts fields items →
      ∀ item ∈ items, (IsNode item ↔ ∃ node, Denotes item node)) :
    IsLayout json ↔ ∃ layout : Layout, Denotes json layout.toNode := by
  constructor
  · rintro ⟨hhead, hprops, hsettings, hgiven, hnodes⟩
    obtain ⟨spacing, hspacing⟩ := exists_denotesSpacing hsettings
    obtain ⟨children, hdenotes⟩ := exists_forall₂_iff.mpr fun item hitem =>
      (hitems _ _ rfl (.given hgiven) item hitem).mp (hnodes item hitem)
    exact ⟨⟨_, _, spacing, children⟩, .layout hhead hprops hspacing hgiven hdenotes⟩
  · rintro ⟨⟨id, kind, spacing, children⟩, hdenotes⟩
    cases hdenotes with
    | layout hhead hprops hspacing hgiven hdenotes =>
      refine .intro hhead hprops hspacing.1 hgiven fun item hitem => ?_
      exact (hitems _ _ rfl (.given hgiven) item hitem).mpr
        (exists_forall₂_iff.mp ⟨children, hdenotes⟩ item hitem)

theorem isNode_iff_exists_denotes {json : Json} : IsNode json ↔ ∃ node, Denotes json node := by
  induction json using Json.induct with
  | other json hother =>
    refine iff_of_false ?_ ?_
    · rintro (⟨⟨⟩⟩ | ⟨⟨⟩⟩) <;> cases hother
    · rintro ⟨node, ⟨⟩⟩ <;> cases hother
  | object fields ih =>
    have hlayout : IsLayout (.object fields) ↔
        ∃ layout : Layout, Denotes (.object fields) layout.toNode := by
      refine isLayout_iff_of_items ?_
      rintro _ items ⟨⟩ hparts item hitem
      obtain ⟨key, others, hentry, hmem⟩ := exists_mem_of_hasParts hparts item hitem
      exact ih key others hentry item hmem
    constructor
    · rintro (h | h)
      · obtain ⟨layout, hdenotes⟩ := hlayout.mp h
        exact ⟨layout.toNode, hdenotes⟩
      · obtain ⟨c, hdenotes⟩ := isComponent_iff_exists_denotes.mp h
        exact ⟨.component c, hdenotes⟩
    · rintro ⟨node, hdenotes⟩
      cases node with
      | layout id kind spacing children =>
        exact .layout (hlayout.mpr ⟨⟨id, kind, spacing, children⟩, hdenotes⟩)
      | component c => exact .component (isComponent_iff_exists_denotes.mpr ⟨c, hdenotes⟩)

theorem isLayout_iff_exists_denotes {json : Json} :
    IsLayout json ↔ ∃ layout : Layout, Denotes json layout.toNode :=
  isLayout_iff_of_items fun _ _ _ _ _ _ => isNode_iff_exists_denotes

theorem mem_modificationNames_iff {name : String} :
    name ∈ ["create", "edit", "regenerate"] ↔
      ∃ modification : Modification, name = modification.name := by
  constructor
  · simp only [List.mem_cons, List.not_mem_nil, or_false]
    rintro (rfl | rfl | rfl)
    · exact ⟨.create, rfl⟩
    · exact ⟨.edit, rfl⟩
    · exact ⟨.regenerate, rfl⟩
  · rintro ⟨modification, rfl⟩
    cases modification <;> simp [Modification.name]

theorem isPlan_iff_exists_denotes {json : Json} : IsPlan json ↔ ∃ plan, DenotesPlan json plan := by
  constructor
  · rintro ⟨hkeys, hmodification, hname, hroot, hlayout⟩
    obtain ⟨modification, rfl⟩ := mem_modificationNames_iff.mp hname
    obtain ⟨root, hdenotes⟩ := isLayout_iff_exists_denotes.mp hlayout
    exact ⟨⟨modification, root⟩, .intro hkeys hmodification hroot hdenotes⟩
  · rintro ⟨plan, hkeys, hmodification, hroot, hdenotes⟩
    exact .intro hkeys hmodification (mem_modificationNames_iff.mpr ⟨plan.modification, rfl⟩) hroot
      (isLayout_iff_exists_denotes.mpr ⟨plan.root, hdenotes⟩)

end Plan

end Wireframe
