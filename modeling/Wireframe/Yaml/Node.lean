import Wireframe.Ledger
import Wireframe.Yaml.Token

namespace Wireframe.Yaml

-- A node with a name takes a number, by which aliases refer to it.
inductive Node where
  | scalar (style : ScalarStyle) (tag : Option Bytes) (text : String)
  | sequence (items : List Node)
  | mapping (entries : List (Node × Node))
  -- a node that has a name
  | numbered (number : Nat) (node : Node)
  | alias (number : Nat)

namespace Node

-- The scalar where nothing is written.
def empty : Node := .scalar .plain none ""

def withNumber (number : Option Nat) (node : Node) : Node :=
  match number with
  | some number => numbered number node
  | none => node

mutual

-- The nodes with numbers, every node before those in it.
def targets : Node → List (Nat × Node)
  | scalar _ _ _ => []
  | sequence items => itemTargets items
  | mapping entries => entryTargets entries
  | numbered number node => (number, node) :: node.targets
  | .alias _ => []

def itemTargets : List Node → List (Nat × Node)
  | [] => []
  | item :: rest => item.targets ++ itemTargets rest

def entryTargets : List (Node × Node) → List (Nat × Node)
  | [] => []
  | (key, value) :: rest => key.targets ++ value.targets ++ entryTargets rest

end

mutual

-- The number of signs that a document consists of: one for a scalar or an alias, and one at each end
-- of a sequence or a mapping.
def extent : Node → Nat
  | scalar _ _ _ => 1
  | sequence items => 2 + itemExtent items
  | mapping entries => 2 + entryExtent entries
  | numbered _ node => node.extent
  | .alias _ => 1

def itemExtent : List Node → Nat
  | [] => 0
  | item :: rest => item.extent + itemExtent rest

def entryExtent : List (Node × Node) → Nat
  | [] => 0
  | (key, value) :: rest => key.extent + value.extent + entryExtent rest

end

end Node

-- What is left to read, what handles stand for, and the numbers of the names so far.
structure Source where
  tokens : List Token
  handles : Handles := standardHandles
  names : Ledger Nat := []

namespace Source

def drop (s : Source) : Source := { s with tokens := s.tokens.tail }

-- The next token is one of these.
def sees (s : Source) (tokens : List Token) : Bool := s.tokens.head?.any tokens.contains

-- What may stand before a node: a name for it and a tag, in either order.
def properties (s : Source) : Option (List Char) × Option WrittenTag × Source :=
  match s.tokens with
  | .anchor name :: .tag tag :: rest => (some name, some tag, { s with tokens := rest })
  | .tag tag :: .anchor name :: rest => (some name, some tag, { s with tokens := rest })
  | .anchor name :: rest => (some name, none, { s with tokens := rest })
  | .tag tag :: rest => (none, some tag, { s with tokens := rest })
  | _ => (none, none, s)

-- Numbers a node that has a name by the number of different names before it. So a name that comes
-- again brings its node the number that a later one can have too.
def define (s : Source) (name : Option (List Char)) : Option Nat × Source :=
  match name with
  | some name =>
    let number := s.names.length
    (some number, { s with names := s.names.insert (String.ofList name) number })
  | none => (none, s)

-- The tag in full. Its handle has to be known.
def complete? (s : Source) (tag : Option WrittenTag) : Option (Option Bytes) :=
  match tag with
  | some tag => (tag.complete? s.handles).map some
  | none => some none

mutual

-- A node. `block` says that it may be a block, and `flush` that it may be a sequence whose items
-- are not indented. Nothing at all is a node only behind a name or a tag.
def node? (fuel : Nat) (block flush : Bool) (s : Source) : Option (Node × Source) :=
  match fuel with
  | 0 => none
  | fuel + 1 =>
    match s.tokens with
    | .alias name :: rest =>
      (s.names.get? (String.ofList name)).map fun n => (.alias n, { s with tokens := rest })
    | _ =>
      match s.properties with
      | (name, tag, s) =>
        match s.complete? tag, s.define name with
        | none, _ => none
        | some tag, (number, s) =>
          let numbered (result : Option (Node × Source)) : Option (Node × Source) :=
            result.map fun (node, s) => (node.withNumber number, s)
          let nothing : Option (Node × Source) :=
            if number.isSome || tag.isSome then numbered (some (.scalar .plain tag "", s)) else none
          match s.tokens with
          | .scalar style text :: rest =>
            numbered (some (.scalar style tag (String.ofList text), { s with tokens := rest }))
          | .flowSequence :: _ => numbered (flowItems? fuel true [] s.drop)
          | .flowMapping :: _ => numbered (flowEntries? fuel true [] s.drop)
          | token :: _ =>
            if flush && token == .item then numbered (flushItems? fuel [] s)
            else if block && token == .blockSequence then numbered (blockItems? fuel [] s.drop)
            else if block && token == .blockMapping then numbered (blockEntries? fuel [] s.drop)
            else nothing
          | [] => nothing

-- A node that may be left out before certain tokens.
def nodeUnless? (fuel : Nat) (block flush : Bool) (ends : List Token) (s : Source) :
    Option (Node × Source) :=
  match fuel with
  | 0 => none
  | fuel + 1 => if s.sees ends then some (.empty, s) else node? fuel block flush s

-- The items of a sequence block. `read` holds those before, backwards.
def blockItems? (fuel : Nat) (read : List Node) (s : Source) : Option (Node × Source) :=
  match fuel with
  | 0 => none
  | fuel + 1 =>
    if s.sees [.item] then
      match nodeUnless? fuel true false [.item, .blockEnd] s.drop with
      | some (node, s) => blockItems? fuel (node :: read) s
      | none => none
    else if s.sees [.blockEnd] then some (.sequence read.reverse, s.drop)
    else none

-- The items of a sequence that is not indented. Whatever is not an item ends it.
def flushItems? (fuel : Nat) (read : List Node) (s : Source) : Option (Node × Source) :=
  match fuel with
  | 0 => none
  | fuel + 1 =>
    if s.sees [.item] then
      match nodeUnless? fuel true false [.item, .key, .value, .blockEnd] s.drop with
      | some (node, s) => flushItems? fuel (node :: read) s
      | none => none
    else some (.sequence read.reverse, s)

-- What is behind the colon of an entry, if there is one.
def entryValue? (fuel : Nat) (block : Bool) (ends : List Token) (s : Source) :
    Option (Node × Source) :=
  match fuel with
  | 0 => none
  | fuel + 1 =>
    if s.sees [.value] then nodeUnless? fuel block block ends s.drop else some (.empty, s)

def blockEntries? (fuel : Nat) (read : List (Node × Node)) (s : Source) :
    Option (Node × Source) :=
  match fuel with
  | 0 => none
  | fuel + 1 =>
    if s.sees [.key] then
      match nodeUnless? fuel true true [.key, .value, .blockEnd] s.drop with
      | none => none
      | some (key, s) =>
        match entryValue? fuel true [.key, .value, .blockEnd] s with
        | some (value, s) => blockEntries? fuel ((key, value) :: read) s
        | none => none
    else if s.sees [.blockEnd] then some (.mapping read.reverse, s.drop)
    else none

-- The items in square brackets. A pair can stand as an item, as a mapping with one entry. Where its
-- key is left out behind a question mark, the sign that follows is passed over.
def flowItems? (fuel : Nat) (first : Bool) (read : List Node) (s : Source) :
    Option (Node × Source) :=
  match fuel with
  | 0 => none
  | fuel + 1 =>
    if s.sees [.flowSequenceEnd] then some (.sequence read.reverse, s.drop)
    else if !first && !s.sees [.comma] then none
    else
      let s := if first then s else s.drop
      if s.sees [.flowSequenceEnd] then some (.sequence read.reverse, s.drop)
      else if s.sees [.key] then
        match s.drop.sees [.value, .comma, .flowSequenceEnd],
            nodeUnless? fuel false false [.value, .comma, .flowSequenceEnd] s.drop with
        | _, none => none
        | isLeftOut, some (key, s) =>
          match entryValue? fuel false [.comma, .flowSequenceEnd] (if isLeftOut then s.drop else s) with
          | some (value, s) => flowItems? fuel false (.mapping [(key, value)] :: read) s
          | none => none
      else
        match node? fuel false false s with
        | some (node, s) => flowItems? fuel false (node :: read) s
        | none => none

-- The entries in braces. A key can stand without a value.
def flowEntries? (fuel : Nat) (first : Bool) (read : List (Node × Node)) (s : Source) :
    Option (Node × Source) :=
  match fuel with
  | 0 => none
  | fuel + 1 =>
    if s.sees [.flowMappingEnd] then some (.mapping read.reverse, s.drop)
    else if !first && !s.sees [.comma] then none
    else
      let s := if first then s else s.drop
      if s.sees [.flowMappingEnd] then some (.mapping read.reverse, s.drop)
      else if s.sees [.key] then
        match nodeUnless? fuel false false [.value, .comma, .flowMappingEnd] s.drop with
        | none => none
        | some (key, s) =>
          match entryValue? fuel false [.comma, .flowMappingEnd] s with
          | some (value, s) => flowEntries? fuel false ((key, value) :: read) s
          | none => none
      else
        match node? fuel false false s with
        | some (key, s) => flowEntries? fuel false ((key, .empty) :: read) s
        | none => none

end

-- The declarations in front of a document. The version and each handle may be given once.
def declarations? (versioned : Bool) (handles : Handles) : List Token →
    Option (Handles × List Token)
  | .version :: rest => if versioned then none else declarations? true handles rest
  | .handle name bytes :: rest =>
    if (handles.lookup name).isSome then none
    else declarations? versioned ((name, bytes) :: handles) rest
  | rest => some (handles, rest)

-- The node of a document behind its marks.
def content? (s : Source) : Option (Node × Source) :=
  let fuel := 3 * s.tokens.length + 3
  match s.tokens, declarations? false [] s.tokens with
  | [], _ => some (.empty, s)
  | _, some (handles, .documentStart :: rest) =>
    let s := { s with tokens := rest, handles := handles ++ standardHandles }
    if rest.isEmpty then some (.empty, s)
    else nodeUnless? fuel true false [.documentStart, .documentEnd] s
  | _, _ => node? fuel true false s

end Source

-- The only document in a text.
def document? (text : List Char) : Option Node := do
  let (node, s) ← Source.content? { tokens := ← tokens? text }
  if (s.tokens.dropWhile (· == .documentEnd)).isEmpty then some node else none

end Wireframe.Yaml
