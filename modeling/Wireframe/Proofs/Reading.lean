import Wireframe.Proofs.Distinct
import Wireframe.Proofs.Grammar
import Wireframe.Proofs.JsonText
import Wireframe.Proofs.RoundTrip

namespace Wireframe

theorem name_eq_of_find? {α : Type} {all : List α} {name : α → String} {text : String} {a : α}
    (h : all.find? (name · == text) = some a) : text = name a :=
  (beq_iff_eq.mp (List.find?_some (p := (name · == text)) h)).symm

theorem Kind.name_of_ofName? {name : String} {kind : Kind} (h : Kind.ofName? name = some kind) :
    name = kind.name := by
  rw [Kind.ofName?, Option.or_eq_some_iff] at h
  rcases h with h | ⟨-, h⟩
  · obtain ⟨layoutKind, hkind, rfl⟩ := Option.map_eq_some_iff.mp h
    exact (name_eq_of_find? hkind : name = layoutKind.name)
  · obtain ⟨componentKind, hkind, rfl⟩ := Option.map_eq_some_iff.mp h
    exact (name_eq_of_find? hkind : name = componentKind.name)

theorem SpacingProp.name_of_ofName? {name : String} {prop : SpacingProp}
    (h : SpacingProp.ofName? name = some prop) : name = prop.name :=
  name_eq_of_find? h

theorem Modification.name_of_ofName? {name : String} {modification : Modification}
    (h : Modification.ofName? name = some modification) : name = modification.name :=
  name_eq_of_find? h

theorem Spacing.eq_iff_get {a b : Spacing} : a = b ↔ ∀ prop, a.get prop = b.get prop := by
  constructor
  · rintro rfl _
    rfl
  · intro h
    obtain ⟨gap, padding, columns⟩ := a
    obtain ⟨gap', padding', columns'⟩ := b
    obtain rfl : gap = gap' := h .gap
    obtain rfl : padding = padding' := h .padding
    obtain rfl : columns = columns' := h .columns
    rfl

namespace Plan

variable {path : Path} {fields : Fields}

theorem readString_eq_ok_iff {key s : String} :
    readString path fields key = .ok s ↔ fields.get? key = some (.string s) := by
  rw [readString]
  cases fields.get? key with
  | none => simp
  | some value => cases value <;> simp

theorem checkNodeKeys_eq_ok_iff {id : String} {kind : Kind} {keys : List String} {done : Unit} :
    checkNodeKeys path id kind keys = .ok done ↔ ∀ key ∈ keys, key ∈ nodeKeys := by
  constructor
  · intro h
    induction keys with
    | nil => exact nofun
    | cons key rest ih =>
      rw [checkNodeKeys] at h
      split at h
      · next hkey => exact List.forall_mem_cons.mpr ⟨List.contains_iff_mem.mp hkey, ih h⟩
      · split at h <;> cases h
  · exact checkNodeKeys_of_forall path id kind keys

theorem readProps_eq_ok_iff {props : Fields} :
    readProps path fields = .ok props ↔ HasProps fields props := by
  constructor
  · intro h
    rw [readProps] at h
    split at h
    · next hnone => cases h; exact .unset (.inl hnone)
    · next hnull => cases h; exact .unset (.inr hnull)
    · next hgiven => cases h; exact .given hgiven
    · cases h
  · intro h
    rw [readProps]
    cases h with
    | unset hunset => rcases hunset with hnone | hnull <;> simp [*]
    | given hgiven => rw [hgiven]

theorem checkProps_eq_ok_iff {props : Fields} {kind : Kind} {id : String} {done : Unit} :
    checkProps props kind id = .ok done ↔ Clean props := by
  rw [Clean, ← Json.forbiddenInFields?_eq_none_iff, checkProps]
  cases Json.forbiddenInFields? props <;> simp

theorem readHasChildren_true_iff :
    readHasChildren path fields = .ok true ↔
      ∃ items, fields.get? "children" = some (.array items) := by
  rw [readHasChildren]
  split <;> simp_all

theorem exists_readHasChildren_iff :
    (∃ given, readHasChildren path fields = .ok given) ↔ ∃ items, HasParts fields items := by
  constructor
  · rintro ⟨given, h⟩
    rw [readHasChildren] at h
    split at h
    · next hnone => exact ⟨[], .unset (.inl hnone)⟩
    · next hnull => exact ⟨[], .unset (.inr hnull)⟩
    · next items hitems => exact ⟨items, .given hitems⟩
    · cases h
  · rintro ⟨items, hunset | hitems⟩
    · rw [readHasChildren]
      rcases hunset with hnone | hnull <;> simp [*]
    · exact ⟨true, readHasChildren_true_iff.mpr ⟨items, hitems⟩⟩

theorem unset_of_readHasChildren (h : readHasChildren path fields = .ok false) :
    Unset fields "children" := by
  rw [readHasChildren] at h
  split at h
  · next hnone => exact .inl hnone
  · next hnull => exact .inr hnull
  · cases h
  · cases h

theorem readHead_eq_ok_iff {head : Head} :
    readHead path fields = .ok head ↔
      HasHead fields head.id head.kind ∧ HasProps fields head.props ∧ Clean head.props ∧
        readHasChildren path fields = .ok head.hasChildren := by
  rw [readHead]
  simp only [bind_eq_ok_iff, readString_eq_ok_iff]
  constructor
  · rintro ⟨id, hid, name, htype, h⟩
    split at h
    · cases h
    · next kind hkind =>
      simp only [bind_eq_ok_iff, checkNodeKeys_eq_ok_iff, readProps_eq_ok_iff,
        checkProps_eq_ok_iff] at h
      obtain ⟨-, hkeys, props, hprops, -, hclean, given, hgiven, ⟨⟩⟩ := h
      rw [Kind.name_of_ofName? hkind] at htype
      exact ⟨⟨hkeys, hid, htype⟩, hprops, hclean, hgiven⟩
  · rintro ⟨hhead, hprops, hclean, hgiven⟩
    refine ⟨head.id, hhead.id, head.kind.name, hhead.type, ?_⟩
    rw [Kind.ofName?_name]
    simp only [bind_eq_ok_iff, checkNodeKeys_eq_ok_iff, readProps_eq_ok_iff, checkProps_eq_ok_iff]
    exact ⟨(), hhead.keys, head.props, hprops, (), hclean, head.hasChildren, hgiven, rfl⟩

theorem isSetting_iff {value : Json} :
    IsSetting value ↔ value = .null ∨ ∃ n : UInt32, value = .int n.toNat := by
  constructor
  · rintro (_ | ⟨hpos, hlt⟩)
    · exact .inl rfl
    · next n =>
      have hword : n.toNat < UInt32.size := (Int.toNat_lt hpos).mpr hlt
      refine .inr ⟨UInt32.ofNat n.toNat, ?_⟩
      rw [UInt32.toNat_ofNat_of_lt' hword, Int.toNat_of_nonneg hpos]
  · rintro (rfl | ⟨n, rfl⟩)
    · exact .null
    · have hlt : n.toNat < 2 ^ 32 := n.toNat_lt
      exact .word (by omega) (by omega)

theorem readWord_eq_ok_iff {value : Json} {n : UInt32} :
    readWord path value = .ok n ↔ value = .int n.toNat := by
  rw [← word?_eq_some_iff]
  cases value with
  | int m =>
    cases m with
    | ofNat m =>
      simp only [readWord, word?, Json.nat?]
      split <;> simp
    | negSucc m => simp [readWord, word?, Json.nat?]
  | _ => simp [readWord, word?, Json.nat?]

-- A setting goes over what is there, unless it is null.
def overwrite (before : Spacing) (prop : SpacingProp) (value : Json) : Spacing :=
  (word? value).elim before (before.set prop)

theorem get_overwrite (before : Spacing) (prop : SpacingProp) (value : Json) (other : SpacingProp) :
    (overwrite before prop value).get other =
      if prop = other then (word? value).or (before.get other) else before.get other := by
  rw [overwrite]
  cases word? value <;> cases prop <;> cases other <;> rfl

theorem overwrite_int (before : Spacing) (prop : SpacingProp) (n : UInt32) :
    overwrite before prop (.int n.toNat) = before.set prop n := by
  rw [overwrite, word?_eq_some_iff.mpr rfl]
  rfl

theorem readSpacing_cons_eq_ok_iff {before spacing : Spacing} {name : String} {value : Json}
    {rest : Fields} :
    readSpacing path before ((name, value) :: rest) = .ok spacing ↔
      ∃ prop : SpacingProp, name = prop.name ∧ IsSetting value ∧
        readSpacing path (overwrite before prop value) rest = .ok spacing := by
  constructor
  · intro h
    rw [readSpacing] at h
    split at h
    · cases h
    · next prop hprop =>
      refine ⟨prop, SpacingProp.name_of_ofName? hprop, ?_⟩
      split at h
      · next hnull =>
        cases value with
        | null => exact ⟨.null, h⟩
        | _ => cases hnull
      · obtain ⟨n, hword, h⟩ := bind_eq_ok_iff.mp h
        obtain rfl := readWord_eq_ok_iff.mp hword
        exact ⟨isSetting_iff.mpr (.inr ⟨n, rfl⟩), by rwa [overwrite_int]⟩
  · rintro ⟨prop, rfl, hsetting, h⟩
    rcases isSetting_iff.mp hsetting with rfl | ⟨n, rfl⟩
    · rwa [readSpacing, SpacingProp.ofName?_name]
    · rwa [readSpacing_cons, ← overwrite_int]

theorem mem_settingNames_iff {name : String} :
    name ∈ ["gap", "padding", "columns"] ↔ ∃ prop : SpacingProp, name = prop.name := by
  constructor
  · simp only [List.mem_cons, List.not_mem_nil, or_false]
    rintro (rfl | rfl | rfl)
    · exact ⟨.gap, rfl⟩
    · exact ⟨.padding, rfl⟩
    · exact ⟨.columns, rfl⟩
  · rintro ⟨prop, rfl⟩
    cases prop <;> simp [SpacingProp.name]

theorem areSettings_cons_iff {name : String} {value : Json} {rest : Fields} :
    AreSettings ((name, value) :: rest) ↔
      (∃ prop : SpacingProp, name = prop.name) ∧ IsSetting value ∧ AreSettings rest := by
  rw [AreSettings, List.forall_mem_cons, ← AreSettings, mem_settingNames_iff, and_assoc]

-- With each name once, it does not matter in which order the settings come.
theorem get?_or_get_overwrite {rest : Fields} {prop : SpacingProp} (hnew : prop.name ∉ rest.keys)
    (before : Spacing) (value : Json) (other : SpacingProp) :
    ((rest.get? other.name).bind word?).or ((overwrite before prop value).get other) =
      ((Ledger.get? ((prop.name, value) :: rest) other.name).bind word?).or (before.get other) := by
  rw [Ledger.get?_cons, get_overwrite]
  by_cases hprop : prop = other
  · subst hprop
    rw [if_pos rfl, if_pos rfl, Ledger.get?_eq_none_iff.mpr hnew]
    rfl
  · have hname : prop.name ≠ other.name := fun hname => hprop (SpacingProp.name_injective hname)
    rw [if_neg hprop, if_neg hname]

theorem readSpacing_eq_ok_iff {props : Fields} (hdistinct : props.keys.Nodup)
    {before spacing : Spacing} :
    readSpacing path before props = .ok spacing ↔
      AreSettings props ∧
        ∀ prop, spacing.get prop = ((props.get? prop.name).bind word?).or (before.get prop) := by
  induction props generalizing before with
  | nil =>
    rw [readSpacing, Except.ok.injEq, eq_comm, Spacing.eq_iff_get]
    exact ⟨fun h => ⟨List.forall_mem_nil _, h⟩, fun h => h.2⟩
  | cons entry rest ih =>
    obtain ⟨name, value⟩ := entry
    obtain ⟨hnew, hrest⟩ := List.nodup_cons.mp hdistinct
    rw [readSpacing_cons_eq_ok_iff, areSettings_cons_iff]
    constructor
    · rintro ⟨prop, rfl, hvalue, h⟩
      obtain ⟨hsettings, hgets⟩ := (ih hrest).mp h
      refine ⟨⟨⟨prop, rfl⟩, hvalue, hsettings⟩, fun other => ?_⟩
      rw [hgets, get?_or_get_overwrite hnew]
    · rintro ⟨⟨⟨prop, rfl⟩, hvalue, hsettings⟩, hgets⟩
      refine ⟨prop, rfl, hvalue, (ih hrest).mpr ⟨hsettings, fun other => ?_⟩⟩
      rw [hgets, get?_or_get_overwrite hnew]

theorem readSpacing_eq_ok_iff_denotes {props : Fields} (hdistinct : props.keys.Nodup)
    {spacing : Spacing} :
    readSpacing path {} props = .ok spacing ↔ DenotesSpacing props spacing := by
  have hnone (prop : SpacingProp) : ({} : Spacing).get prop = none := by cases prop <;> rfl
  rw [readSpacing_eq_ok_iff hdistinct, DenotesSpacing]
  refine and_congr_right fun _ => forall_congr' fun prop => ?_
  rw [hnone, Option.or_none, Option.ext_iff]
  exact forall_congr' fun n => iff_congr .rfl bind_word?_eq_some_iff

theorem componentOnly_eq_ok_iff {node : Node} {c : Component} :
    componentOnly node = .ok c ↔ node = .component c := by
  cases node <;> simp [componentOnly]

-- A list is read item by item.
theorem readNodes_eq_ok_iff {items : List Json}
    (hread : ∀ item ∈ items, ∀ path node, readNode path item = .ok node ↔ Denotes item node)
    {index : Nat} {nodes : List Node} :
    readNodes path index items = .ok nodes ↔ List.Forall₂ Denotes items nodes := by
  induction items generalizing index nodes with
  | nil => rw [readNodes, List.forall₂_nil_left_iff, Except.ok.injEq, eq_comm]
  | cons item rest ih =>
    obtain ⟨hitem, hrest⟩ := List.forall_mem_cons.mp hread
    rw [readNodes, List.forall₂_cons_left_iff]
    simp only [bind_eq_ok_iff, hitem, ih hrest]
    constructor
    · rintro ⟨node, hnode, others, hothers, ⟨⟩⟩
      exact ⟨node, others, hnode, hothers, rfl⟩
    · rintro ⟨node, others, hnode, hothers, rfl⟩
      exact ⟨node, hnode, others, hothers, rfl⟩

theorem readComponents_eq_ok_iff {items : List Json}
    (hread : ∀ item ∈ items, ∀ path node, readNode path item = .ok node ↔ Denotes item node)
    {index : Nat} {parts : List Component} :
    readComponents path index items = .ok parts ↔
      List.Forall₂ (fun item part => Denotes item (.component part)) items parts := by
  induction items generalizing index parts with
  | nil => rw [readComponents, List.forall₂_nil_left_iff, Except.ok.injEq, eq_comm]
  | cons item rest ih =>
    obtain ⟨hitem, hrest⟩ := List.forall_mem_cons.mp hread
    rw [readComponents, List.forall₂_cons_left_iff]
    simp only [bind_eq_ok_iff, hitem, ih hrest, componentOnly_eq_ok_iff]
    constructor
    · rintro ⟨_, hpart, part, rfl, others, hothers, ⟨⟩⟩
      exact ⟨part, others, hpart, hothers, rfl⟩
    · rintro ⟨part, others, hpart, hothers, rfl⟩
      exact ⟨_, hpart, part, rfl, others, hothers, rfl⟩

-- The children among the entries of a node.
def childItems : Fields → List Json
  | [] => []
  | (key, .array items) :: rest => if key == "children" then items else childItems rest
  | _ :: rest => childItems rest

theorem readChildren_eq (path : Path) (fields : Fields) :
    readChildren path fields = readNodes path 0 (childItems fields) := by
  induction fields with
  | nil => rfl
  | cons entry rest ih =>
    obtain ⟨key, value⟩ := entry
    cases value with
    | array items =>
      rw [readChildren, childItems, ih]
      split <;> rfl
    | _ => exact ih

theorem readParts_eq (path : Path) (fields : Fields) :
    readParts path fields = readComponents path 0 (childItems fields) := by
  induction fields with
  | nil => rfl
  | cons entry rest ih =>
    obtain ⟨key, value⟩ := entry
    cases value with
    | array items =>
      rw [readParts, childItems, ih]
      split <;> rfl
    | _ => exact ih

theorem childItems_cons_of_ne {key : String} (hkey : key ≠ "children") (value : Json)
    (rest : Fields) : childItems ((key, value) :: rest) = childItems rest := by
  cases value with
  | array items => rw [childItems, if_neg (by simpa using hkey)]
  | _ => rfl

theorem childItems_of_notMem (hkeys : "children" ∉ fields.keys) : childItems fields = [] := by
  induction fields with
  | nil => rfl
  | cons entry rest ih =>
    rw [Ledger.keys, List.map_cons, List.mem_cons, not_or, ← Ledger.keys] at hkeys
    rw [childItems_cons_of_ne (Ne.symm hkeys.1), ih hkeys.2]

-- With each key once, the children are under their key.
theorem childItems_eq (hdistinct : fields.keys.Nodup) :
    childItems fields = ((fields.get? "children").bind Json.array?).getD [] := by
  induction fields with
  | nil => rfl
  | cons entry rest ih =>
    obtain ⟨key, value⟩ := entry
    obtain ⟨hnew, hrest⟩ := List.nodup_cons.mp hdistinct
    rw [Ledger.get?_cons]
    by_cases hkey : key = "children"
    · subst hkey
      rw [if_pos rfl]
      cases value with
      | array items => rfl
      | _ => exact (childItems_of_notMem hnew : childItems rest = [])
    · rw [if_neg hkey, childItems_cons_of_ne hkey, ih hrest]

theorem childItems_of_hasParts (hdistinct : fields.keys.Nodup) {items : List Json}
    (hparts : HasParts fields items) : childItems fields = items := by
  rw [childItems_eq hdistinct]
  cases hparts with
  | unset hunset => rcases hunset with hnone | hnull <;> simp [*, Json.array?]
  | given hgiven => rw [hgiven]; rfl

theorem exists_mem_of_mem_childItems {item : Json} (h : item ∈ childItems fields) :
    ∃ key items, (key, Json.array items) ∈ fields ∧ item ∈ items := by
  induction fields with
  | nil => cases h
  | cons entry rest ih =>
    obtain ⟨key, value⟩ := entry
    have hlater (hrest : item ∈ childItems rest) :
        ∃ key' items, (key', Json.array items) ∈ (key, value) :: rest ∧ item ∈ items := by
      obtain ⟨key', items, hentry, hmem⟩ := ih hrest
      exact ⟨key', items, List.mem_cons_of_mem _ hentry, hmem⟩
    cases value with
    | array items =>
      rw [childItems] at h
      split at h
      · exact ⟨key, items, List.mem_cons_self, h⟩
      · exact hlater h
    | _ => exact hlater h

theorem clean_of_areSettings {props : Fields} (hsettings : AreSettings props) : Clean props := by
  induction props with
  | nil => exact nofun
  | cons entry rest ih =>
    obtain ⟨name, value⟩ := entry
    obtain ⟨⟨prop, rfl⟩, hvalue, hrest⟩ := areSettings_cons_iff.mp hsettings
    have hname : ¬ ForbiddenKey prop.name := by
      cases prop <;> decide
    have hnone : Json.keys value = [] := by
      cases hvalue <;> rfl
    rw [Clean, Json.keysInFields, hnone, List.nil_append]
    exact List.forall_mem_cons.mpr ⟨hname, ih hrest⟩

-- All that reading an object can do: its entries are those of a layout or those of a component.
theorem readNode_object_eq_ok_iff {node : Node} :
    readNode path (.object fields) = .ok node ↔
      (∃ id kind props spacing items children,
        HasHead fields id (.layout kind) ∧ HasProps fields props ∧ Clean props ∧
          readSpacing (.field path "props") {} props = .ok spacing ∧
          fields.get? "children" = some (.array items) ∧
          readChildren path fields = .ok children ∧ .layout id kind spacing children = node) ∨
      ∃ id kind props items parts,
        HasHead fields id (.component kind) ∧ HasProps fields props ∧ Clean props ∧
          HasParts fields items ∧ readParts path fields = .ok parts ∧
          .component ⟨id, kind, props, parts⟩ = node := by
  rw [readNode, bind_eq_ok_iff]
  simp only [readHead_eq_ok_iff]
  constructor
  · rintro ⟨⟨id, kind, props, given⟩, ⟨hhead, hprops, hclean, hgiven⟩, h⟩
    cases kind with
    | layout kind =>
      obtain ⟨spacing, hspacing, h⟩ := bind_eq_ok_iff.mp h
      cases given with
      | false => cases h
      | true =>
        obtain ⟨items, hitems⟩ := readHasChildren_true_iff.mp hgiven
        obtain ⟨children, hchildren, ⟨⟩⟩ := bind_eq_ok_iff.mp h
        exact .inl ⟨id, kind, props, spacing, items, children, hhead, hprops, hclean, hspacing,
          hitems, hchildren, rfl⟩
    | component kind =>
      obtain ⟨parts, hparts, ⟨⟩⟩ := bind_eq_ok_iff.mp h
      obtain ⟨items, hitems⟩ := exists_readHasChildren_iff.mp ⟨given, hgiven⟩
      exact .inr ⟨id, kind, props, items, parts, hhead, hprops, hclean, hitems, hparts, rfl⟩
  · rintro (h | h)
    · obtain ⟨id, kind, props, spacing, items, children, hhead, hprops, hclean, hspacing, hitems,
        hchildren, rfl⟩ := h
      refine ⟨⟨id, .layout kind, props, true⟩, ⟨hhead, hprops, hclean,
        readHasChildren_true_iff.mpr ⟨items, hitems⟩⟩, ?_⟩
      exact bind_eq_ok_iff.mpr ⟨spacing, hspacing, bind_eq_ok_iff.mpr ⟨children, hchildren, rfl⟩⟩
    · obtain ⟨id, kind, props, items, parts, hhead, hprops, hclean, hitems, hparts, rfl⟩ := h
      obtain ⟨given, hgiven⟩ := exists_readHasChildren_iff.mpr ⟨items, hitems⟩
      refine ⟨⟨id, .component kind, props, given⟩, ⟨hhead, hprops, hclean, hgiven⟩, ?_⟩
      exact bind_eq_ok_iff.mpr ⟨parts, hparts, rfl⟩

theorem nodup_of_hasProps (hdistinct : (Json.object fields).Distinct) {props : Fields}
    (hprops : HasProps fields props) : props.keys.Nodup := by
  cases hprops with
  | unset => exact .nil
  | given hgiven => exact (hdistinct.fields.2 _ (Ledger.mem_of_get? hgiven)).fields.1

-- Reading gives the node that is denoted, and fails if there is none.
theorem readNode_eq_ok_iff {json : Json} (hdistinct : json.Distinct) (path : Path) (node : Node) :
    readNode path json = .ok node ↔ Denotes json node := by
  induction json using Json.induct generalizing path node with
  | other json hother =>
    refine iff_of_false ?_ ?_
    · cases json with
      | object => cases hother
      | _ => rw [readNode] <;> simp
    · rintro ⟨⟩ <;> cases hother
  | object fields ih =>
    have hkeys := hdistinct.fields.1
    have hread {items : List Json} (hparts : HasParts fields items) :
        ∀ item ∈ items, ∀ path node, readNode path item = .ok node ↔ Denotes item node := by
      intro item hitem
      obtain ⟨key, others, hentry, hmem⟩ := exists_mem_of_hasParts hparts item hitem
      exact ih key others hentry item hmem ((hdistinct.fields.2 _ hentry).items item hmem)
    rw [readNode_object_eq_ok_iff]
    constructor
    · rintro (h | h)
      · obtain ⟨id, kind, props, spacing, items, children, hhead, hprops, -, hspacing, hitems,
          hchildren, rfl⟩ := h
        rw [readSpacing_eq_ok_iff_denotes (nodup_of_hasProps hdistinct hprops)] at hspacing
        rw [readChildren_eq, childItems_of_hasParts hkeys (.given hitems),
          readNodes_eq_ok_iff (hread (.given hitems))] at hchildren
        exact .layout hhead hprops hspacing hitems hchildren
      · obtain ⟨id, kind, props, items, parts, hhead, hprops, hclean, hitems, hparts, rfl⟩ := h
        rw [readParts_eq, childItems_of_hasParts hkeys hitems,
          readComponents_eq_ok_iff (hread hitems)] at hparts
        exact .component hhead hprops hclean hitems hparts
    · rintro (⟨hhead, hprops, hspacing, hitems, hchildren⟩ |
        ⟨hhead, hprops, hclean, hitems, hparts⟩)
      · rw [← readNodes_eq_ok_iff (hread (.given hitems)),
          ← childItems_of_hasParts hkeys (.given hitems), ← readChildren_eq] at hchildren
        exact .inl ⟨_, _, _, _, _, _, hhead, hprops, clean_of_areSettings hspacing.1,
          (readSpacing_eq_ok_iff_denotes (nodup_of_hasProps hdistinct hprops)).mpr hspacing, hitems,
          hchildren, rfl⟩
      · rw [← readComponents_eq_ok_iff (hread hitems), ← childItems_of_hasParts hkeys hitems,
          ← readParts_eq] at hparts
        exact .inr ⟨_, _, _, _, _, hhead, hprops, hclean, hitems, hparts, rfl⟩

theorem readModification_eq_ok_iff {modification : Modification} :
    readModification fields = .ok modification ↔
      fields.get? "modificationType" = some (.string modification.name) := by
  rw [readModification]
  simp only [bind_eq_ok_iff, readString_eq_ok_iff]
  constructor
  · rintro ⟨name, hname, h⟩
    split at h
    · next found hfound =>
      cases h
      rwa [Modification.name_of_ofName? hfound] at hname
    · cases h
  · exact fun hname => ⟨modification.name, hname, by rw [Modification.ofName?_name]⟩

theorem readRoot_eq_ok_iff {root : Layout} (hdistinct : (Json.object fields).Distinct) :
    readRoot fields = .ok root ↔
      ∃ json, fields.get? "root" = some json ∧ Denotes json root.toNode := by
  rw [readRoot]
  cases hroot : fields.get? "root" with
  | none => simp
  | some json =>
    have hread := readNode_eq_ok_iff (hdistinct.fields.2 _ (Ledger.mem_of_get? hroot)) (.top "root")
    simp only [bind_eq_ok_iff, hread, Option.some.injEq, exists_eq_left']
    constructor
    · rintro ⟨node, hdenotes, h⟩
      cases node with
      | layout id kind spacing children =>
        cases h
        exact hdenotes
      | component c => cases h
    · exact fun hdenotes => ⟨root.toNode, hdenotes, rfl⟩

theorem find?_planKeys_eq_none_iff {keys : List String} :
    keys.find? (fun key => !planKeys.contains key) = none ↔
      ∀ key ∈ keys, key ∈ ["modificationType", "root"] := by
  simp only [List.find?_eq_none, Bool.not_eq_true', Bool.not_eq_false, List.contains_iff_mem,
    planKeys]

theorem ofJson_eq_ok_iff_denotes {json : Json} (hdistinct : json.Distinct) {plan : Plan} :
    ofJson json = .ok plan ↔ DenotesPlan json plan := by
  cases json with
  | object fields =>
    rw [ofJson]
    constructor
    · intro h
      split at h
      · cases h
      · next hkeys =>
        obtain ⟨modification, hmodification, h⟩ := bind_eq_ok_iff.mp h
        obtain ⟨root, hroot, ⟨⟩⟩ := bind_eq_ok_iff.mp h
        obtain ⟨json, hjson, hdenotes⟩ := (readRoot_eq_ok_iff hdistinct).mp hroot
        exact .intro (find?_planKeys_eq_none_iff.mp hkeys)
          (readModification_eq_ok_iff.mp hmodification) hjson hdenotes
    · rintro ⟨hkeys, hmodification, hroot, hdenotes⟩
      rw [find?_planKeys_eq_none_iff.mpr hkeys]
      exact bind_eq_ok_iff.mpr ⟨_, readModification_eq_ok_iff.mpr hmodification,
        bind_eq_ok_iff.mpr ⟨_, (readRoot_eq_ok_iff hdistinct).mpr ⟨_, hroot, hdenotes⟩, rfl⟩⟩
  | _ => refine iff_of_false ?_ ?_ <;> rintro ⟨⟩

-- Reading accepts the plans of the grammar and nothing else, and gives what they denote. No object
-- that comes from a text has a key twice.
theorem ofJson_accepts_grammar :
    (∀ json : Json, json.Distinct →
      ((∃ plan, ofJson json = .ok plan) ↔ IsPlan json) ∧
        ∀ plan, ofJson json = .ok plan ↔ DenotesPlan json plan) ∧
    ∀ text json, Json.parse? text = some json → json.Distinct := by
  refine ⟨fun json hdistinct => ⟨?_, fun plan => ofJson_eq_ok_iff_denotes hdistinct⟩,
    fun text json => Json.distinct_of_parse?⟩
  rw [isPlan_iff_exists_denotes]
  exact exists_congr fun plan => ofJson_eq_ok_iff_denotes hdistinct

-- A plan with its entries in another order, and with nulls where nothing is given.
def looseCard : Json :=
  .object [("children", .null), ("type", .string "Card"), ("id", .string "card")]

def looseGrid : Json :=
  .object [
    ("props", .object [("columns", .int 2), ("gap", .null)]), ("children", .array [looseCard]),
    ("id", .string "grid"), ("type", .string "Grid")]

def looseJson : Json := .object [("root", looseGrid), ("modificationType", .string "edit")]

def loosePlan : Plan where
  modification := .edit
  root := {
    id := "grid"
    kind := .grid
    spacing := { columns := some 2 }
    children := [.component ⟨"card", .card, [], []⟩] }

theorem plain_looseJson : looseJson.Plain := by
  have hcard : looseCard.Plain :=
    .object (by decide) (by simpa using ⟨.null, .string _, .string _⟩)
  have hprops : (Json.object [("columns", .int 2), ("gap", .null)]).Plain :=
    .object (by decide) (by simpa using ⟨.int (by decide) (by decide), .null⟩)
  have hgrid : looseGrid.Plain :=
    .object (by decide)
      (by simpa using ⟨hprops, .array (by simpa using hcard), .string _, .string _⟩)
  exact .object (by decide) (by simpa using ⟨hgrid, .string _⟩)

theorem looseJson_denotesPlan :
    ∃ text, Json.parse? text = some looseJson ∧ looseJson.Distinct ∧
      ofJson looseJson = .ok loosePlan ∧ IsPlan looseJson ∧ DenotesPlan looseJson loosePlan := by
  have hparse := Json.parse?_print Json.Style.blank_pretty plain_looseJson (by decide)
  have hdistinct := ofJson_accepts_grammar.2 _ _ hparse
  have hgrammar := ofJson_accepts_grammar.1 looseJson hdistinct
  have hread : ofJson looseJson = .ok loosePlan := by rfl
  exact ⟨_, hparse, hdistinct, hread, hgrammar.1.mp ⟨loosePlan, hread⟩,
    (hgrammar.2 loosePlan).mp hread⟩

end Plan

end Wireframe
