import Wireframe.Json.Basic
import Wireframe.Plan.Kind

namespace Wireframe

-- What can be set on a layout.
inductive SpacingProp where
  | gap | padding | columns
  deriving DecidableEq, Repr

-- The props of a layout.
structure Spacing where
  gap : Option UInt32 := none
  padding : Option UInt32 := none
  columns : Option UInt32 := none
  deriving DecidableEq

structure Component where
  id : String
  kind : ComponentKind
  props : Fields
  children : List Component

-- A layout holds nodes of both sorts, a component holds components only.
inductive Node where
  | layout (id : String) (kind : LayoutKind) (spacing : Spacing) (children : List Node)
  | component (component : Component)

-- A layout that stands on its own, as the root of a plan does.
structure Layout where
  id : String
  kind : LayoutKind
  spacing : Spacing
  children : List Node

-- How a plan relates to the plan before it.
inductive Modification where
  | create | edit | regenerate
  deriving DecidableEq, Repr

structure Plan where
  modification : Modification
  root : Layout

namespace Modification

def all : List Modification := [create, edit, regenerate]

def name : Modification → String
  | create => "create"
  | edit => "edit"
  | regenerate => "regenerate"

def ofName? (name : String) : Option Modification := all.find? (·.name == name)

end Modification

namespace SpacingProp

def all : List SpacingProp := [gap, padding, columns]

def name : SpacingProp → String
  | gap => "gap"
  | padding => "padding"
  | columns => "columns"

def ofName? (name : String) : Option SpacingProp := all.find? (·.name == name)

end SpacingProp

namespace Spacing

def get (spacing : Spacing) : SpacingProp → Option UInt32
  | .gap => spacing.gap
  | .padding => spacing.padding
  | .columns => spacing.columns

def set (spacing : Spacing) (prop : SpacingProp) (n : UInt32) : Spacing :=
  match prop with
  | .gap => { spacing with gap := some n }
  | .padding => { spacing with padding := some n }
  | .columns => { spacing with columns := some n }

-- The props that are set.
def toJson (spacing : Spacing) : Json :=
  .object <| SpacingProp.all.filterMap fun prop =>
    (spacing.get prop).map fun n => (prop.name, .int n.toNat)

end Spacing

namespace Node

def id : Node → String
  | layout id _ _ _ => id
  | component c => c.id

def kind : Node → Kind
  | layout _ kind _ _ => .layout kind
  | component c => .component c.kind

-- The props as a JSON object, the form in which they are compared.
def props : Node → Json
  | layout _ _ spacing _ => spacing.toJson
  | component c => .object c.props

def children : Node → List Node
  | layout _ _ _ children => children
  | component c => c.children.map component

end Node

mutual

def Component.walk : Component → List Node
  | ⟨id, kind, props, children⟩ => .component ⟨id, kind, props, children⟩ :: Component.walkAll children

def Component.walkAll : List Component → List Node
  | [] => []
  | c :: rest => c.walk ++ Component.walkAll rest

end

mutual

def Node.walk : Node → List Node
  | .layout id kind spacing children => .layout id kind spacing children :: Node.walkAll children
  | .component c => c.walk

def Node.walkAll : List Node → List Node
  | [] => []
  | node :: rest => node.walk ++ Node.walkAll rest

end

def Layout.toNode (l : Layout) : Node := .layout l.id l.kind l.spacing l.children

namespace Plan

def nodes (plan : Plan) : List Node := plan.root.toNode.walk

def ids (plan : Plan) : List String := plan.nodes.map (·.id)

-- The first node with an id.
def find? (plan : Plan) (id : String) : Option Node := plan.nodes.find? (·.id == id)

def count (plan : Plan) (kind : Kind) : Nat := plan.nodes.countP (·.kind == kind)

end Plan

end Wireframe
