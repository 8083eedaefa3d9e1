import Wireframe.Fault
import Wireframe.Json.Parser
import Wireframe.Plan.Basic
import Wireframe.Plan.Forbidden
import Wireframe.Plan.Validity

namespace Wireframe

abbrev Reading := Except Fault

namespace Plan

-- The text under a key. `path` is the place of the entry.
def readString (path : Path) (fields : Fields) (key : String) : Reading String :=
  match fields.get? key with
  | some (.string s) => .ok s
  | some _ => .error (.schema path .notString)
  | none => .error (.schema path .missingField)

structure Head where
  id : String
  kind : Kind
  props : Fields
  hasChildren : Bool

def nodeKeys : List String := ["id", "type", "props", "children"]

-- Refuses the first entry that a node does not have, and says so if it is a forbidden prop.
def checkNodeKeys (path : Path) (id : String) (kind : Kind) : List String → Reading Unit
  | [] => .ok ()
  | key :: rest =>
    if nodeKeys.contains key then checkNodeKeys path id kind rest
    else if isForbiddenKey key then .error (.forbiddenProp key kind.name id)
    else .error (.schema (.field path key) .unexpectedField)

-- The props of a node; absent and null props are empty.
def readProps (path : Path) (fields : Fields) : Reading Fields :=
  match fields.get? "props" with
  | none | some .null => .ok []
  | some (.object props) => .ok props
  | some _ => .error (.schema (.field path "props") .notObject)

-- Whether the node has a list of children; absent and null children are none.
def readHasChildren (path : Path) (fields : Fields) : Reading Bool :=
  match fields.get? "children" with
  | none | some .null => .ok false
  | some (.array _) => .ok true
  | some _ => .error (.schema (.field path "children") .notArray)

def readHead (path : Path) (fields : Fields) : Reading Head := do
  let id ← readString (.field path "id") fields "id"
  let name ← readString (.field path "type") fields "type"
  match Kind.ofName? name with
  | none => .error (.unknownKind name id)
  | some kind =>
    checkNodeKeys path id kind fields.keys
    let props ← readProps path fields
    checkProps props kind id
    let hasChildren ← readHasChildren path fields
    return { id, kind, props, hasChildren }

-- A whole number of 32 bits.
def readWord (path : Path) (value : Json) : Reading UInt32 :=
  match value.nat? with
  | some n => if n < UInt32.size then .ok n.toUInt32 else .error (.schema path .notNatural)
  | none => .error (.schema path .notNatural)

-- Adds the given props to those read before. A null sets nothing.
def readSpacing (path : Path) (spacing : Spacing) : List (String × Json) → Reading Spacing
  | [] => .ok spacing
  | (name, value) :: rest =>
    match SpacingProp.ofName? name with
    | none => .error (.schema (.field path name) .unknownLayoutProp)
    | some prop =>
      if value.isNull then readSpacing path spacing rest
      else do
        let n ← readWord (.field path name) value
        readSpacing path (spacing.set prop n) rest

-- A component may hold no layout.
def componentOnly : Node → Reading Component
  | .component c => .ok c
  | .layout id kind _ _ => .error (.structural .layoutInComponent kind.name id)

mutual

def readNode (path : Path) : Json → Reading Node
  | .object fields => do
    let head ← readHead path fields
    match head.kind with
    | .layout kind =>
      let spacing ← readSpacing (.field path "props") {} head.props
      if !head.hasChildren then .error (.schema (.field path "children") .layoutWithoutChildren)
      return .layout head.id kind spacing (← readChildren path fields)
    | .component kind =>
      return .component ⟨head.id, kind, head.props, ← readParts path fields⟩
  | _ => .error (.schema path .nodeNotObject)

-- The children of a layout with the given entries.
def readChildren (path : Path) : List (String × Json) → Reading (List Node)
  | [] => .ok []
  | (key, .array items) :: rest =>
    if key == "children" then readNodes path 0 items else readChildren path rest
  | _ :: rest => readChildren path rest

-- The children of a component with the given entries.
def readParts (path : Path) : List (String × Json) → Reading (List Component)
  | [] => .ok []
  | (key, .array items) :: rest =>
    if key == "children" then readComponents path 0 items else readParts path rest
  | _ :: rest => readParts path rest

-- The nodes of a list, the first of which is the child at `index`.
def readNodes (path : Path) (index : Nat) : List Json → Reading (List Node)
  | [] => .ok []
  | item :: rest => do
    let node ← readNode (.child path index) item
    return node :: (← readNodes path (index + 1) rest)

def readComponents (path : Path) (index : Nat) : List Json → Reading (List Component)
  | [] => .ok []
  | item :: rest => do
    let component ← componentOnly (← readNode (.child path index) item)
    return component :: (← readComponents path (index + 1) rest)

end

def readModification (fields : Fields) : Reading Modification := do
  let path := .top "modificationType"
  let name ← readString path fields "modificationType"
  match Modification.ofName? name with
  | some modification => .ok modification
  | none => .error (.schema path (.unknownModification name))

def readRoot (fields : Fields) : Reading Layout := do
  match fields.get? "root" with
  | none => .error (.schema (.top "root") .missingField)
  | some value =>
    match ← readNode (.top "root") value with
    | .layout id kind spacing children => return { id, kind, spacing, children }
    | .component c => .error (.schema (.top "root") (.rootNotLayout c.kind.name))

def planKeys : List String := ["modificationType", "root"]

-- Whatever does not belong in a plan is refused with its place.
def ofJson (json : Json) : Reading Plan :=
  match json with
  | .object fields => do
    match (Ledger.keys fields).find? fun key => !planKeys.contains key with
    | some key => .error (.schema (.top key) .unexpectedField)
    | none =>
      let modification ← readModification fields
      return { modification, root := ← readRoot fields }
  | _ => .error (.schema .whole .planNotObject)

-- Reads a plan from JSON text.
def parse (text : String) : Reading Plan :=
  match Json.parse? text with
  | some json => ofJson json
  | none => .error (.schema .whole .notJson)

-- Reads a plan and checks it.
def accept (whitelist : Whitelist) (json : Json) : Reading Plan := do
  (← ofJson json).validate whitelist

end Plan

end Wireframe
