import Wireframe.Json.Printer
import Wireframe.Plan.Basic

namespace Wireframe

-- What a node shows of itself to a comparison.
structure Appearance where
  kind : Kind
  props : Json

inductive Change where
  | added (props : Json)
  | removed (props : Json)
  | updated (before after : Json)
  | unchanged (before after : Json)

-- The four sorts of change, apart from the props.
inductive ChangeSort where
  | added | removed | updated | unchanged
  deriving DecidableEq, Repr

structure NodeChange where
  kind : Kind
  change : Change

structure Difference where
  modification : Modification
  changed : List String
  changes : Ledger NodeChange

-- How many changes of each sort there are. The counters are words of 32 bits, which start over at
-- zero.
structure Summary where
  added : UInt32 := 0
  removed : UInt32 := 0
  updated : UInt32 := 0
  unchanged : UInt32 := 0

namespace ChangeSort

def all : List ChangeSort := [added, removed, updated, unchanged]

def name : ChangeSort → String
  | added => "added"
  | removed => "removed"
  | updated => "updated"
  | unchanged => "unchanged"

-- The name in capitals.
def label : ChangeSort → String
  | added => "ADDED"
  | removed => "REMOVED"
  | updated => "UPDATED"
  | unchanged => "UNCHANGED"

end ChangeSort

namespace Summary

def get (summary : Summary) : ChangeSort → UInt32
  | .added => summary.added
  | .removed => summary.removed
  | .updated => summary.updated
  | .unchanged => summary.unchanged

-- Counts one change more.
def add (summary : Summary) : ChangeSort → Summary
  | .added => { summary with added := summary.added + 1 }
  | .removed => { summary with removed := summary.removed + 1 }
  | .updated => { summary with updated := summary.updated + 1 }
  | .unchanged => { summary with unchanged := summary.unchanged + 1 }

end Summary

namespace Change

def sort : Change → ChangeSort
  | added _ => .added
  | removed _ => .removed
  | updated _ _ => .updated
  | unchanged _ _ => .unchanged

def before? : Change → Option Json
  | added _ => none
  | removed props => some props
  | updated before _ => some before
  | unchanged before _ => some before

def after? : Change → Option Json
  | added props => some props
  | removed _ => none
  | updated _ after => some after
  | unchanged _ after => some after

-- The change between two props. They count as equal if they are written alike.
def ofProps (before after : Json) : Change :=
  if before.compact == after.compact then unchanged before after else updated before after

end Change

namespace Plan

-- The nodes by id. Of nodes with the same id the last one counts.
def appearances (plan : Plan) : Ledger Appearance :=
  Ledger.ofList <| plan.nodes.map fun node => (node.id, ⟨node.kind, node.props⟩)

end Plan

namespace Difference

-- What became of a node that the current plan has.
def changeOf (before : Ledger Appearance) (id : String) (now : Appearance) : NodeChange :=
  match before.get? id with
  | none => ⟨now.kind, .added now.props⟩
  | some old => ⟨now.kind, .ofProps old.props now.props⟩

-- The changes from one set of nodes to the next, one for each id: those of the current plan in its
-- walk order, then those that are gone in the walk order of the plan before.
def changesBetween (before after : Ledger Appearance) : Ledger NodeChange :=
  (after.map fun (id, now) => (id, changeOf before id now)) ++
    (before.filter fun (id, _) => !after.contains id).map fun (id, old) =>
      (id, ⟨old.kind, .removed old.props⟩)

def isChange (change : NodeChange) : Bool := change.change.sort != .unchanged

-- A plan that was made anew is not compared: all its ids are changed.
def between (previous : Option Plan) (current : Plan) : Difference :=
  match current.modification with
  | .regenerate => ⟨.regenerate, current.ids.eraseDups, []⟩
  | modification =>
    let before := (previous.map Plan.appearances).getD []
    let changes := changesBetween before current.appearances
    ⟨modification, Ledger.keys (changes.filter fun (_, change) => isChange change), changes⟩

def summary (difference : Difference) : Summary :=
  difference.changes.foldl (fun summary (_, change) => summary.add change.change.sort) {}

-- The number that the summary has for a sort.
def count (difference : Difference) (sort : ChangeSort) : Nat :=
  (difference.summary.get sort).toNat

-- The ids whose change is of the given sort.
def idsOf (difference : Difference) (sort : ChangeSort) : List String :=
  Ledger.keys (difference.changes.filter fun (_, change) => change.change.sort == sort)

-- Puts a text at its place in a list in strictly ascending order, unless it is there.
def insertSorted (s : String) : List String → List String
  | [] => [s]
  | t :: rest =>
    if s == t then t :: rest
    else if s < t then s :: t :: rest
    else t :: insertSorted s rest

-- The texts in ascending order, each once.
def sortedOnce (texts : List String) : List String := texts.foldr insertSorted []

-- Two values under a key are the same, or both are missing.
def sameEntry : Option Json → Option Json → Bool
  | some a, some b => a.same b
  | none, none => true
  | _, _ => false

-- The keys under which two objects differ.
def changedKeys (before after : Fields) : List String :=
  sortedOnce <| (before.keys ++ after.keys).filter fun key =>
    !sameEntry (before.get? key) (after.get? key)

def entriesOf (json : Json) : Fields := json.object?.getD []

def describeChange : Change → String
  | .added _ => "added"
  | .removed _ => "removed"
  | .updated before after =>
    match changedKeys (entriesOf before) (entriesOf after) with
    | [] => "props changed"
    | keys => String.intercalate ", " keys ++ " changed"
  | .unchanged _ _ => "no changes"

-- One line about a node.
def describe (id : String) (change : NodeChange) : String :=
  id ++ " (" ++ change.kind.name ++ "): " ++ describeChange change.change

def changeToJson (id : String) (change : NodeChange) : Json :=
  .object <|
    [("type", .string change.change.sort.name), ("nodeId", .string id),
      ("kind", .string change.kind.name)] ++
    (change.change.before?.map fun props => ("oldProps", props)).toList ++
    (change.change.after?.map fun props => ("newProps", props)).toList

def toJson (difference : Difference) : Json :=
  .object [
    ("modificationType", .string difference.modification.name),
    ("changedNodeIds", Json.strings difference.changed),
    ("diffs", .object (difference.changes.map fun (id, change) => (id, changeToJson id change)))]

end Difference

end Wireframe
