import Wireframe.Binary64.Basic
import Wireframe.Ledger

namespace Wireframe

-- Objects keep their keys in order of first arrival. Integers and floating point numbers are
-- different values.
inductive Json where
  | null
  | bool (b : Bool)
  | int (n : Int)
  | float (x : Binary64)
  | string (s : String)
  | array (items : List Json)
  | object (fields : List (String × Json))

-- The entries of an object.
abbrev Fields := Ledger Json

namespace Json

def isNull : Json → Bool
  | null => true
  | _ => false

def object? : Json → Option Fields
  | object fields => some fields
  | _ => none

def array? : Json → Option (List Json)
  | array items => some items
  | _ => none

def string? : Json → Option String
  | string s => some s
  | _ => none

def int? : Json → Option Int
  | int n => some n
  | _ => none

def nat? : Json → Option Nat
  | int (.ofNat n) => some n
  | _ => none

-- The value of a key, if this is an object that has it.
def field? (json : Json) (key : String) : Option Json := json.object?.bind (Ledger.get? · key)

def strings (items : List String) : Json := array (items.map string)

mutual

-- Equality of values: the order of keys does not matter, and the two zeros are equal.
def same : Json → Json → Bool
  | null, null => true
  | bool a, bool b => a == b
  | int a, int b => a == b
  | float a, float b => a.same b
  | string a, string b => a == b
  | array as, array bs => sameAll as bs
  | object as, object bs => as.length == bs.length && sameFields as bs
  | _, _ => false

def sameAll : List Json → List Json → Bool
  | [], [] => true
  | a :: as, b :: bs => same a b && sameAll as bs
  | _, _ => false

-- Each of the first entries has an equal value under its key in `others`.
def sameFields : Fields → Fields → Bool
  | [], _ => true
  | (key, a) :: rest, others =>
    (match Ledger.get? others key with
      | some b => same a b
      | none => false) && sameFields rest others

end

end Json

end Wireframe
