import Wireframe.Instruction.Request
import Wireframe.Plan.Difference
import Wireframe.Plan.Id
import Wireframe.Template.Part

namespace Wireframe

open Instruction (Addition Request)

mutual

def Component.without (kinds : List ComponentKind) : Component → Component
  | ⟨id, kind, props, children⟩ => ⟨id, kind, props, Component.allWithout kinds children⟩

def Component.allWithout (kinds : List ComponentKind) : List Component → List Component
  | [] => []
  | c :: rest =>
    if kinds.contains c.kind then Component.allWithout kinds rest
    else c.without kinds :: Component.allWithout kinds rest

end

-- A node of a kind that is to go.
def Node.isOneOf (kinds : List ComponentKind) : Node → Bool
  | .layout _ _ _ _ => false
  | .component c => kinds.contains c.kind

mutual

def Node.without (kinds : List ComponentKind) : Node → Node
  | .layout id kind spacing children => .layout id kind spacing (Node.allWithout kinds children)
  | .component c => .component (c.without kinds)

def Node.allWithout (kinds : List ComponentKind) : List Node → List Node
  | [] => []
  | node :: rest =>
    if node.isOneOf kinds then Node.allWithout kinds rest
    else node.without kinds :: Node.allWithout kinds rest

end

def Layout.without (layout : Layout) (kinds : List ComponentKind) : Layout :=
  { layout with children := Node.allWithout kinds layout.children }

-- Some child of the root is gone in the other plan.
def losesChild (prior : Plan) (stripped : Plan) : Bool :=
  let changes := (Difference.between (some prior) stripped).changes
  prior.root.children.any fun child =>
    (changes.get? child.id).any fun change => change.change.sort == .removed

-- The layout that takes the place of a root that has become a mere wrapper: a removal has taken
-- some of the children of the root, and a single layout is left.
def survivor? (prior : Plan) (stripped : Layout) : Option Layout :=
  match stripped.children with
  | [.layout id kind spacing children] =>
    if 2 ≤ prior.root.children.length && losesChild prior ⟨.edit, stripped⟩ then
      some { id, kind, spacing, children }
    else none
  | _ => none

def removeKinds (prior : Plan) (kinds : List ComponentKind) : Layout :=
  let stripped := prior.root.without kinds
  if kinds.isEmpty then stripped else (survivor? prior stripped).getD stripped

-- What is appended for an addition. Charts and tables come in cards.
def additionDraft (p : Placeholders) : Addition → ComponentDraft
  | .modal title inputs => (Template.modal title).append (inputs.map Template.input)
  | .chart => Template.chartCard p
  | .table => Template.tableCard p

-- Appends the additions in turn, each under the next id that is not taken.
def appendAll (p : Placeholders) (root : Layout) (taken : List String) : List Addition → Layout
  | [] => root
  | addition :: rest =>
    let draft := additionDraft p addition
    let id := nextFreeId root.id (.component draft.kind) root.children.length taken
    let root := { root with children := root.children ++ [.component (draft.build id)] }
    appendAll p root (id :: taken) rest

def Plan.edit (prior : Plan) (p : Placeholders) (request : Request) : Plan :=
  let root := removeKinds prior request.removals
  ⟨.edit, appendAll p root (Plan.ids ⟨.edit, root⟩) request.additions⟩

end Wireframe
