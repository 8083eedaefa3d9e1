import Wireframe.Plan.Kind

namespace Wireframe

-- `<parent>.<kind>-<index>`, and `<kind>-<index>` for a root.
def nodeId (parent : Option String) (kind : Kind) (index : Nat) : String :=
  match parent with
  | some p => p ++ "." ++ kind.slug ++ "-" ++ toString index
  | none => kind.slug ++ "-" ++ toString index

-- The first number from `index` on whose id below the parent is not taken. Different numbers make
-- different ids, so after as many misses as there are taken ids the next one is free.
def freeNumber (parent : String) (kind : Kind) (index : Nat) (taken : List String) : Nat :=
  go taken.length index
where
  go : Nat → Nat → Nat
    | 0, i => i
    | misses + 1, i => if taken.contains (nodeId (some parent) kind i) then go misses (i + 1) else i

-- Numbers are words of 64 bits.
def numberBound : Nat := UInt64.size

-- The id below a parent with the first number from `index` on that is not taken. The search goes on
-- at zero where the numbers end.
def nextFreeId (parent : String) (kind : Kind) (index : Nat) (taken : List String) : String :=
  let number := freeNumber parent kind index taken
  nodeId (some parent) kind
    (if number < numberBound then number else freeNumber parent kind 0 taken)

def isIdStart (c : Char) : Bool := c.isAlphanum

def isIdPart (c : Char) : Bool := c.isAlphanum || c == '.' || c == '_' || c == '-'

-- One to 256 ASCII letters, digits, points, underscores and hyphens, the first a letter or digit.
def isValidId (id : String) : Bool :=
  match id.toList with
  | [] => false
  | c :: rest => isIdStart c && rest.all isIdPart && rest.length ≤ 255

end Wireframe
