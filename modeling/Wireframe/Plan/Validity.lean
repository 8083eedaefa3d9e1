import Wireframe.Fault
import Wireframe.Plan.Basic
import Wireframe.Plan.Forbidden
import Wireframe.Plan.Id
import Wireframe.Plan.Whitelist

namespace Wireframe

-- Refuses props that have a forbidden key at any depth.
def checkProps (props : Fields) (kind : Kind) (id : String) : Except Fault Unit :=
  match Json.forbiddenInFields? props with
  | some key => .error (.forbiddenProp key kind.name id)
  | none => .ok ()

-- Refuses an id that is not well-formed, and then a kind that is not allowed.
def checkHead (whitelist : Whitelist) (id : String) (kind : Kind) : Except Fault Unit :=
  if !isValidId id then .error (.structural .invalidId kind.name id)
  else if !whitelist.allows kind then .error (.unknownKind kind.name id)
  else .ok ()

mutual

def Component.check (whitelist : Whitelist) : Component → Except Fault Unit
  | ⟨id, kind, props, children⟩ => do
    checkHead whitelist id (.component kind)
    checkProps props (.component kind) id
    Component.checkAll whitelist children

def Component.checkAll (whitelist : Whitelist) : List Component → Except Fault Unit
  | [] => .ok ()
  | c :: rest => do
    c.check whitelist
    Component.checkAll whitelist rest

end

mutual

def Node.check (whitelist : Whitelist) : Node → Except Fault Unit
  | .layout id kind _ children => do
    checkHead whitelist id (.layout kind)
    if children.isEmpty then .error (.structural .emptyLayout kind.name id)
    Node.checkAll whitelist children
  | .component c => c.check whitelist

def Node.checkAll (whitelist : Whitelist) : List Node → Except Fault Unit
  | [] => .ok ()
  | node :: rest => do
    node.check whitelist
    Node.checkAll whitelist rest

end

-- The first node whose id is among those seen before it.
def firstRepeated? (seen : List String) : List Node → Option Node
  | [] => none
  | node :: rest =>
    if seen.contains node.id then some node else firstRepeated? (node.id :: seen) rest

-- Reports the first fault on the way through the tree, and repeated ids only if there is no other
-- fault.
def Plan.validate (whitelist : Whitelist) (plan : Plan) : Except Fault Plan := do
  plan.root.toNode.check whitelist
  match firstRepeated? [] plan.nodes with
  | some node => .error (.structural .duplicateId node.kind.name node.id)
  | none => .ok plan

end Wireframe
