import Wireframe.Ledger
import Wireframe.Plan.Kind

namespace Wireframe

-- The kinds that a plan may use, by name, each with the role that it may take. Names that are no
-- kinds permit nothing.
abbrev Whitelist := Ledger Role

namespace Whitelist

-- Every kind in its own role.
def full : Whitelist := Kind.all.map fun kind => (kind.name, kind.role)

-- A kind is allowed if its name is listed with its own role.
def allows (whitelist : Whitelist) (kind : Kind) : Bool := whitelist.get? kind.name == some kind.role

-- The entries of the full list with one of the given names.
def only (names : List String) : Whitelist := full.filter fun entry => names.contains entry.1

end Whitelist

end Wireframe
