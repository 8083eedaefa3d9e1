import Wireframe.Plan.Basic
import Wireframe.Plan.Id

namespace Wireframe

-- A tree without ids. They follow from its shape, from the root down: each node is numbered by its
-- place among its siblings.
structure ComponentDraft where
  kind : ComponentKind
  props : Fields := []
  children : List ComponentDraft := []

inductive Draft where
  | layout (kind : LayoutKind) (spacing : Spacing) (children : List Draft)
  | component (draft : ComponentDraft)

structure LayoutDraft where
  kind : LayoutKind
  children : List Draft
  spacing : Spacing := {}

namespace ComponentDraft

-- Further children at the end.
def append (draft : ComponentDraft) (children : List ComponentDraft) : ComponentDraft :=
  { draft with children := draft.children ++ children }

mutual

def build (id : String) : ComponentDraft → Component
  | ⟨kind, props, children⟩ => ⟨id, kind, props, buildAll id 0 children⟩

-- The children of a node, the first of which has the number `index`.
def buildAll (parent : String) (index : Nat) : List ComponentDraft → List Component
  | [] => []
  | draft :: rest =>
    draft.build (nodeId (some parent) (.component draft.kind) index) ::
      buildAll parent (index + 1) rest

end

end ComponentDraft

namespace Draft

def kind : Draft → Kind
  | layout kind _ _ => .layout kind
  | component draft => .component draft.kind

mutual

def build (id : String) : Draft → Node
  | layout kind spacing children => .layout id kind spacing (buildAll id 0 children)
  | component draft => .component (draft.build id)

def buildAll (parent : String) (index : Nat) : List Draft → List Node
  | [] => []
  | draft :: rest =>
    draft.build (nodeId (some parent) draft.kind index) :: buildAll parent (index + 1) rest

end

end Draft

namespace LayoutDraft

-- The draft as a part of another.
def toDraft (draft : LayoutDraft) : Draft := .layout draft.kind draft.spacing draft.children

-- The draft as the root of a plan.
def build (draft : LayoutDraft) : Layout :=
  let id := nodeId none (.layout draft.kind) 0
  { id, kind := draft.kind, spacing := draft.spacing, children := Draft.buildAll id 0 draft.children }

end LayoutDraft

end Wireframe
