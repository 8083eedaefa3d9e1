namespace Wireframe

-- A table with its keys in order of first arrival. A key that comes again takes the new value at
-- its old place.
abbrev Ledger (α : Type) := List (String × α)

namespace Ledger

variable {α β : Type}

def get? (ledger : Ledger α) (key : String) : Option α := ledger.lookup key

def contains (ledger : Ledger α) (key : String) : Bool := (ledger.get? key).isSome

def keys (ledger : Ledger α) : List String := ledger.map (·.1)

def values (ledger : Ledger α) : List α := ledger.map (·.2)

-- Sets a key: at its place if it is there, at the end otherwise.
def insert : Ledger α → String → α → Ledger α
  | [], key, value => [(key, value)]
  | (k, v) :: rest, key, value =>
    if k == key then (key, value) :: rest else (k, v) :: insert rest key value

-- The table that results from setting the given keys one after the other.
def ofList (entries : List (String × α)) : Ledger α :=
  entries.foldl (fun ledger entry => insert ledger entry.1 entry.2) []

def mapValues (f : α → β) (ledger : Ledger α) : Ledger β :=
  ledger.map fun entry => (entry.1, f entry.2)

end Ledger

end Wireframe
