import Wireframe.Plan.Json
import Wireframe.Plan.Reader
import Wireframe.Proofs.Validity

namespace Wireframe

theorem Kind.ofName?_name (kind : Kind) : Kind.ofName? kind.name = some kind := by
  cases kind with
  | layout kind => cases kind <;> rfl
  | component kind => cases kind <;> rfl

theorem Modification.ofName?_name (modification : Modification) :
    Modification.ofName? modification.name = some modification := by
  cases modification <;> rfl

theorem SpacingProp.ofName?_name (prop : SpacingProp) :
    SpacingProp.ofName? prop.name = some prop := by
  cases prop <;> rfl

theorem SpacingProp.name_injective {a b : SpacingProp} (hname : a.name = b.name) : a = b := by
  have hprop := a.ofName?_name
  rw [hname, b.ofName?_name] at hprop
  exact (Option.some.inj hprop).symm

namespace Spacing

-- The props that are set, under their names.
def entries (spacing : Spacing) : Fields :=
  SpacingProp.all.filterMap fun prop =>
    (spacing.get prop).map fun n => (prop.name, .int n.toNat)

theorem toJson_eq (spacing : Spacing) : spacing.toJson = .object spacing.entries := rfl

theorem forbiddenInFields?_entries (spacing : Spacing) :
    Json.forbiddenInFields? spacing.entries = none := by
  obtain ⟨gap, padding, columns⟩ := spacing
  cases gap <;> cases padding <;> cases columns <;> rfl

end Spacing

namespace Plan

theorem readWord_int (path : Path) (n : UInt32) : readWord path (.int n.toNat) = .ok n := by
  change (if n.toNat < UInt32.size then _ else _) = _
  rw [if_pos n.toNat_lt_size, Nat.toUInt32_eq, UInt32.ofNat_toNat]

theorem readSpacing_cons (path : Path) (before : Spacing) (prop : SpacingProp) (n : UInt32)
    (rest : Fields) :
    readSpacing path before ((prop.name, .int n.toNat) :: rest) =
      readSpacing path (before.set prop n) rest := by
  rw [readSpacing, SpacingProp.ofName?_name]
  simp only [Json.isNull, Bool.false_eq_true, if_false, readWord_int]
  rfl

theorem readSpacing_entries (path : Path) (spacing : Spacing) :
    readSpacing path {} spacing.entries = .ok spacing := by
  have hnil : ∀ spacing : Spacing, readSpacing path spacing [] = .ok spacing := fun _ => rfl
  obtain ⟨gap, padding, columns⟩ := spacing
  cases gap <;> cases padding <;> cases columns <;>
    simp only [Spacing.entries, SpacingProp.all, Spacing.get, List.filterMap_cons, Option.map_some,
      Option.map_none, List.filterMap_nil, readSpacing_cons, hnil, Spacing.set]

theorem checkNodeKeys_of_forall (path : Path) (id : String) (kind : Kind) (keys : List String)
    (hkeys : ∀ key ∈ keys, key ∈ nodeKeys) : checkNodeKeys path id kind keys = .ok () := by
  induction keys with
  | nil => rfl
  | cons key rest ih =>
    obtain ⟨hkey, hrest⟩ := List.forall_mem_cons.mp hkeys
    rw [checkNodeKeys, if_pos (List.contains_iff_mem.mpr hkey), ih hrest]

-- Of a node with the right entries only the props are still to be checked.
theorem readHead_of_entries (path : Path) (id : String) (kind : Kind) (fields : Fields)
    {props : Fields} (children : Option (List Json))
    (hid : fields.get? "id" = some (.string id))
    (htype : fields.get? "type" = some (.string kind.name))
    (hkeys : ∀ key ∈ fields.keys, key ∈ nodeKeys)
    (hprops : fields.get? "props" = some (.object props))
    (hchildren : fields.get? "children" = children.map .array) :
    readHead path fields = (do
      checkProps props kind id
      return ⟨id, kind, props, children.isSome⟩) := by
  have hhas : readHasChildren path fields = .ok children.isSome := by
    rw [readHasChildren, hchildren]
    cases children <;> rfl
  have hread : readProps path fields = .ok props := by rw [readProps, hprops]
  rw [readHead, readString, hid, readString, htype]
  simp only [ok_bind, Kind.ofName?_name, checkNodeKeys_of_forall path id kind _ hkeys, hread, hhas]

theorem readNode_layout (path : Path) (id : String) (kind : LayoutKind) (spacing : Spacing)
    (children : List Node) :
    readNode path (Node.layout id kind spacing children).toJson = (do
      let nodes ← readNodes path 0 (Node.allToJson children)
      return .layout id kind spacing nodes) := by
  have hhead := readHead_of_entries path id (.layout kind)
    [("id", .string id), ("type", .string kind.name), ("props", .object spacing.entries),
      ("children", .array (Node.allToJson children))]
    (some (Node.allToJson children)) rfl rfl (fun _ h => h) rfl rfl
  rw [checkProps, spacing.forbiddenInFields?_entries] at hhead
  rw [Node.toJson, Spacing.toJson_eq, readNode, hhead]
  simp only [ok_bind, pure_bind, readSpacing_entries]
  rfl

theorem readNode_component (path : Path) (c : Component) :
    readNode path c.toJson = (do
      checkProps c.props (.component c.kind) c.id
      let parts ← readComponents path 0 (Component.allToJson c.children)
      return .component ⟨c.id, c.kind, c.props, parts⟩) := by
  obtain ⟨id, kind, props, children⟩ := c
  cases children with
  | nil =>
    have hhead := readHead_of_entries path id (.component kind)
      [("id", .string id), ("type", .string kind.name), ("props", .object props)]
      none rfl rfl (by simp [Ledger.keys, nodeKeys]) rfl rfl
    simp only [Component.toJson, List.append_nil, readNode, hhead, bind_assoc, pure_bind]
    rfl
  | cons first rest =>
    have hhead := readHead_of_entries path id (.component kind)
      [("id", .string id), ("type", .string kind.name), ("props", .object props),
        ("children", .array (first.toJson :: Component.allToJson rest))]
      (some (first.toJson :: Component.allToJson rest)) rfl rfl (fun _ h => h) rfl rfl
    simp only [Component.toJson, List.cons_append, List.nil_append, readNode, hhead, bind_assoc,
      pure_bind]
    rfl

theorem readComponents_of_forall (parts : List Component)
    (hread : ∀ c ∈ parts, ∀ path,
      readNode path c.toJson = unlessFault (c.walk.findSome? Node.markup?) (.component c))
    (path : Path) (index : Nat) :
    readComponents path index (Component.allToJson parts) =
      unlessFault ((parts.flatMap Component.walk).findSome? Node.markup?) parts := by
  induction parts generalizing index with
  | nil => rfl
  | cons c rest ih =>
    obtain ⟨hc, hrest⟩ := List.forall_mem_cons.mp hread
    rw [Component.allToJson, readComponents, hc, ih hrest, List.flatMap_cons, List.findSome?_append]
    cases c.walk.findSome? Node.markup? with
    | none => cases (rest.flatMap Component.walk).findSome? Node.markup? <;> rfl
    | some fault => rfl

theorem readNodes_of_forall (nodes : List Node)
    (hread : ∀ node ∈ nodes, ∀ path,
      readNode path node.toJson = unlessFault (node.walk.findSome? Node.markup?) node)
    (path : Path) (index : Nat) :
    readNodes path index (Node.allToJson nodes) =
      unlessFault ((nodes.flatMap Node.walk).findSome? Node.markup?) nodes := by
  induction nodes generalizing index with
  | nil => rfl
  | cons node rest ih =>
    obtain ⟨hnode, hrest⟩ := List.forall_mem_cons.mp hread
    rw [Node.allToJson, readNodes, hnode, ih hrest, List.flatMap_cons, List.findSome?_append]
    cases node.walk.findSome? Node.markup? with
    | none => cases (rest.flatMap Node.walk).findSome? Node.markup? <;> rfl
    | some fault => rfl

theorem readNode_component_toJson (c : Component) (path : Path) :
    readNode path c.toJson = unlessFault (c.walk.findSome? Node.markup?) (.component c) := by
  induction c using Component.induct generalizing path with
  | step c ih =>
    rw [readNode_component, readComponents_of_forall c.children ih, checkProps_eq,
      Component.walk_eq, List.findSome?_cons]
    obtain ⟨id, kind, props, children⟩ := c
    cases (Node.component ⟨id, kind, props, children⟩).markup? with
    | none => cases (children.flatMap Component.walk).findSome? Node.markup? <;> rfl
    | some fault => rfl

-- Reading the JSON of a node looks for a forbidden prop in the walk, and else gives the node.
theorem readNode_toJson (node : Node) (path : Path) :
    readNode path node.toJson = unlessFault (node.walk.findSome? Node.markup?) node := by
  induction node using Node.induct generalizing path with
  | step node ih =>
    cases node with
    | component c => exact readNode_component_toJson c path
    | layout id kind spacing children =>
      rw [readNode_layout, readNodes_of_forall children ih, Node.walk_eq, List.findSome?_cons]
      change _ = unlessFault ((children.flatMap Node.walk).findSome? Node.markup?) _
      cases (children.flatMap Node.walk).findSome? Node.markup? <;> rfl

-- The entries of a plan.
def entries (plan : Plan) : Fields :=
  [("modificationType", .string plan.modification.name), ("root", plan.root.toNode.toJson)]

theorem readModification_entries (plan : Plan) :
    readModification plan.entries = .ok plan.modification := by
  have hname : plan.entries.get? "modificationType" = some (.string plan.modification.name) := rfl
  rw [readModification, readString, hname]
  simp only [ok_bind, Modification.ofName?_name]

theorem readRoot_entries (plan : Plan) :
    readRoot plan.entries = unlessFault (plan.nodes.findSome? Node.markup?) plan.root := by
  have hroot : plan.entries.get? "root" = some plan.root.toNode.toJson := rfl
  rw [readRoot, hroot]
  simp only [readNode_toJson]
  rw [← nodes]
  cases plan.nodes.findSome? Node.markup? <;> rfl

theorem ofJson_toJson_eq (plan : Plan) :
    ofJson plan.toJson = unlessFault (plan.nodes.findSome? Node.markup?) plan := by
  have hkeys : (Ledger.keys plan.entries).find? (fun key => !planKeys.contains key) = none := rfl
  change ofJson (.object plan.entries) = _
  rw [ofJson, hkeys]
  simp only [readModification_entries, readRoot_entries, ok_bind]
  cases plan.nodes.findSome? Node.markup? <;> rfl

end Plan

-- A forbidden key at any depth in the props of a component.
def Node.HasForbiddenKey (node : Node) : Prop :=
  ∃ c, node = .component c ∧ ∃ key ∈ Json.keysInFields c.props, ForbiddenKey key

theorem Node.not_hasForbiddenKey_iff {node : Node} :
    ¬ node.HasForbiddenKey ↔ node.markup? = none := by
  rw [markup?_eq_none_iff]
  simp only [HasForbiddenKey, not_exists, not_and]

theorem Node.markup?_eq_some {node : Node} {fault : Fault} (h : node.markup? = some fault) :
    ∃ key kind id, fault = .forbiddenProp key kind id := by
  cases node with
  | layout id kind spacing children => cases h
  | component c =>
    obtain ⟨key, -, rfl⟩ := Option.map_eq_some_iff.mp h
    exact ⟨key, c.kind.name, c.id, rfl⟩

namespace Plan

theorem ofJson_toJson_of_clean {plan : Plan}
    (hclean : ∀ node ∈ plan.nodes, ¬ node.HasForbiddenKey) : ofJson plan.toJson = .ok plan := by
  have hnone : plan.nodes.findSome? Node.markup? = none :=
    List.findSome?_eq_none_iff.mpr fun node hnode =>
      Node.not_hasForbiddenKey_iff.mp (hclean node hnode)
  rw [ofJson_toJson_eq, hnone]
  rfl

theorem ofJson_toJson_of_forbidden {plan : Plan}
    (hforbidden : ∃ node ∈ plan.nodes, node.HasForbiddenKey) :
    ∃ key kind id, ofJson plan.toJson = .error (.forbiddenProp key kind id) := by
  cases hfind : plan.nodes.findSome? Node.markup? with
  | none =>
    obtain ⟨node, hnode, hkey⟩ := hforbidden
    have hclean := List.findSome?_eq_none_iff.mp hfind node hnode
    exact absurd hkey (Node.not_hasForbiddenKey_iff.mpr hclean)
  | some fault =>
    obtain ⟨node, -, hfault⟩ := List.exists_of_findSome?_eq_some hfind
    obtain ⟨key, kind, id, rfl⟩ := Node.markup?_eq_some hfault
    exact ⟨key, kind, id, by rw [ofJson_toJson_eq, hfind]; rfl⟩

theorem clean_of_validate {whitelist : Whitelist} {plan : Plan}
    (h : plan.validate whitelist = .ok plan) : ∀ node ∈ plan.nodes, ¬ node.HasForbiddenKey := by
  rintro node hnode ⟨c, rfl, key, hkey, hforbidden⟩
  exact ((validate_eq_ok_iff.mp h).1 _ hnode).clean c rfl key hkey hforbidden

-- What has been checked can be written, read and checked again.
theorem accept_toJson {whitelist : Whitelist} {json : Json} {plan : Plan}
    (h : accept whitelist json = .ok plan) : accept whitelist plan.toJson = .ok plan := by
  have hvalid : plan.validate whitelist = .ok plan := by
    obtain ⟨read, -, hread⟩ := bind_eq_ok_iff.mp h
    obtain rfl := eq_of_validate_eq_ok hread
    exact hread
  rw [accept, ofJson_toJson_of_clean (clean_of_validate hvalid), ok_bind, hvalid]

-- Writing and reading are inverse to each other on plans without forbidden props, and on no others.
theorem ofJson_toJson (plan : Plan) :
    ((∀ node ∈ plan.nodes, ¬ node.HasForbiddenKey) → ofJson plan.toJson = .ok plan) ∧
    ((∃ node ∈ plan.nodes, node.HasForbiddenKey) →
      ∃ key kind id, ofJson plan.toJson = .error (.forbiddenProp key kind id)) ∧
    ∀ whitelist json, accept whitelist json = .ok plan →
      accept whitelist plan.toJson = .ok plan :=
  ⟨ofJson_toJson_of_clean, ofJson_toJson_of_forbidden, fun _ _ => accept_toJson⟩

end Plan

end Wireframe
