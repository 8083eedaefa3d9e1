import Wireframe.Proofs.PlanText
import Wireframe.Proofs.Writable

namespace Wireframe

mutual

-- The same tree with other props.
def Component.mapProps (f : Fields → Fields) : Component → Component
  | ⟨id, kind, props, children⟩ => ⟨id, kind, f props, Component.allMapProps f children⟩

def Component.allMapProps (f : Fields → Fields) : List Component → List Component
  | [] => []
  | c :: rest => c.mapProps f :: Component.allMapProps f rest

end

mutual

-- The same tree with other props of components. The props of layouts stay.
def Node.mapProps (f : Fields → Fields) : Node → Node
  | .layout id kind spacing children => .layout id kind spacing (Node.allMapProps f children)
  | .component c => .component (c.mapProps f)

def Node.allMapProps (f : Fields → Fields) : List Node → List Node
  | [] => []
  | node :: rest => node.mapProps f :: Node.allMapProps f rest

end

def Layout.mapProps (f : Fields → Fields) (layout : Layout) : Layout :=
  { layout with children := Node.allMapProps f layout.children }

variable (f : Fields → Fields)

theorem Component.allMapProps_eq (parts : List Component) :
    Component.allMapProps f parts = parts.map (Component.mapProps f) := by
  induction parts with
  | nil => rfl
  | cons c rest ih => rw [Component.allMapProps, ih, List.map_cons]

namespace Node

theorem allMapProps_eq (nodes : List Node) : allMapProps f nodes = nodes.map (mapProps f) := by
  induction nodes with
  | nil => rfl
  | cons node rest ih => rw [allMapProps, ih, List.map_cons]

@[simp] theorem id_mapProps (node : Node) : (node.mapProps f).id = node.id := by
  cases node with
  | layout id kind spacing children => rfl
  | component c => cases c; rfl

@[simp] theorem kind_mapProps (node : Node) : (node.mapProps f).kind = node.kind := by
  cases node with
  | layout id kind spacing children => rfl
  | component c => cases c; rfl

theorem children_mapProps (node : Node) :
    (node.mapProps f).children = node.children.map (mapProps f) := by
  cases node with
  | layout id kind spacing children => exact allMapProps_eq f children
  | component c =>
    cases c
    rw [mapProps, Component.mapProps, Node.children, Component.allMapProps_eq, Node.children,
      List.map_map, List.map_map]
    rfl

theorem walk_mapProps (node : Node) : (node.mapProps f).walk = node.walk.map (mapProps f) := by
  induction node using Node.induct with
  | step node ih =>
    rw [walk_eq, walk_eq node, children_mapProps, List.map_cons, List.map_flatMap,
      List.flatMap_map]
    congr 1
    exact List.flatMap_congr ih

end Node

theorem Whitelist.get?_full (kind : Kind) : full.get? kind.name = some kind.role := by
  cases kind with
  | layout kind => cases kind <;> rfl
  | component kind => cases kind <;> rfl

def Node.reread (node : Node) : Node := node.mapProps Json.rereadFields

-- The plan that comes back when a plan has been written.
def Plan.reread (plan : Plan) : Plan :=
  { plan with root := plan.root.mapProps Json.rereadFields }

theorem Spacing.reread_toJson (spacing : Spacing) : spacing.toJson.reread = spacing.toJson := by
  obtain ⟨gap, padding, columns⟩ := spacing
  cases gap <;> cases padding <;> cases columns <;> rfl

theorem Component.reread_toJson (c : Component) :
    c.toJson.reread = (c.mapProps Json.rereadFields).toJson := by
  induction c using Component.induct with
  | step c ih =>
    obtain ⟨id, kind, props, children⟩ := c
    cases children with
    | nil => rfl
    | cons first rest =>
      have hitems : Json.rereadItems (first.toJson :: Component.allToJson rest) =
          Component.allToJson (Component.allMapProps Json.rereadFields (first :: rest)) := by
        rw [Json.rereadItems_eq, Component.allMapProps_eq, Component.allToJson_eq,
          Component.allToJson_eq, ← List.map_cons, List.map_map, List.map_map]
        exact List.map_congr_left ih
      change Json.object [("id", .string id), ("type", .string kind.name),
          ("props", .object (Json.rereadFields props)),
          ("children", .array (Json.rereadItems (first.toJson :: Component.allToJson rest)))] = _
      rw [hitems]
      rfl

theorem Node.reread_toJson (node : Node) : node.toJson.reread = node.reread.toJson := by
  induction node using Node.induct with
  | step node ih =>
    cases node with
    | component c => exact c.reread_toJson
    | layout id kind spacing children =>
      have hitems : Json.rereadItems (Node.allToJson children) =
          Node.allToJson (Node.allMapProps Json.rereadFields children) := by
        rw [Json.rereadItems_eq, Node.allMapProps_eq, Node.allToJson_eq, Node.allToJson_eq,
          List.map_map, List.map_map]
        exact List.map_congr_left ih
      rw [Node.reread, Node.mapProps, Node.toJson, Node.toJson]
      simp only [Json.reread, Json.rereadFields, hitems, Spacing.reread_toJson]

namespace Plan

theorem reread_toJson (plan : Plan) : plan.toJson.reread = plan.reread.toJson := by
  rw [toJson, toJson, Json.reread]
  simp only [Json.rereadFields, Json.reread, Node.reread_toJson]
  rfl

theorem nodes_reread (plan : Plan) : plan.reread.nodes = plan.nodes.map Node.reread :=
  plan.root.toNode.walk_mapProps Json.rereadFields

end Plan

theorem Node.markup?_reread (node : Node) : node.reread.markup? = node.markup? := by
  cases node with
  | layout id kind spacing children => rfl
  | component c =>
    cases c
    simp only [reread, mapProps, Component.mapProps, markup?, Json.forbiddenInFields?_reread]

theorem Node.Acceptable.reread {whitelist : Whitelist} {node : Node}
    (h : node.Acceptable whitelist) : node.reread.Acceptable whitelist where
  id := by
    rw [Node.reread, Node.id_mapProps]
    exact h.id
  listed := by
    rw [Node.reread, Node.kind_mapProps]
    exact h.listed
  filled hrole := by
    rw [Node.reread, Node.kind_mapProps] at hrole
    rw [Node.reread, Node.children_mapProps, ne_eq, List.map_eq_nil_iff]
    exact h.filled hrole
  clean := by
    rw [← Node.markup?_eq_none_iff, Node.markup?_reread, Node.markup?_eq_none_iff]
    exact h.clean

namespace Plan

variable {whitelist : Whitelist} {plan : Plan}

theorem validate_reread (h : plan.validate whitelist = .ok plan) :
    plan.reread.validate whitelist = .ok plan.reread := by
  obtain ⟨haccept, hdistinct⟩ := validate_eq_ok_iff.mp h
  refine validate_eq_ok_iff.mpr ⟨?_, ?_⟩
  · rw [nodes_reread]
    exact List.forall_mem_map.mpr fun node hnode => (haccept node hnode).reread
  · have hids : Node.id ∘ Node.reread = Node.id := funext fun node => node.id_mapProps _
    rwa [ids, nodes_reread, List.map_map, hids]

-- A list of permitted kinds only ever restricts the full list.
theorem validate_full (h : plan.validate whitelist = .ok plan) :
    plan.validate .full = .ok plan := by
  obtain ⟨haccept, hdistinct⟩ := validate_eq_ok_iff.mp h
  refine validate_eq_ok_iff.mpr ⟨fun node hnode => ?_, hdistinct⟩
  have hnode := haccept node hnode
  exact ⟨hnode.id, Whitelist.get?_full node.kind, hnode.filled, hnode.clean⟩

end Plan

end Wireframe
