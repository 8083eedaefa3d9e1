import Wireframe.Instruction.Cleaning
import Wireframe.Instruction.Screening
import Wireframe.Plan.Edit
import Wireframe.Plan.Validity
import Wireframe.Template.Catalogue

namespace Wireframe

open Instruction

-- The plan for an intent.
def realize (config : Config) (previous : Option Plan) (classification : Classification) :
    Except Fault Plan :=
  match classification.intent, previous with
  | .edit request, some prior => .ok (prior.edit config.placeholders request)
  | intent, _ => do
    return ⟨classification.modification, ← Template.synthesize config.placeholders intent⟩

-- The instruction as it is understood, if it may be followed. It is screened, cleaned and screened
-- again, so that nothing can hide between characters that are not seen.
def approve (limits : Limits) (text : List Char) : Except Fault (List Char) := do
  checkSafe text
  let cleaned ← clean limits text
  checkSafe cleaned
  return cleaned

def compile (config : Config) (previous : Option Plan) (text : String) : Except Fault Plan := do
  let cleaned ← approve config.limits text.toList
  let plan ← realize config previous (classify config previous.isSome cleaned)
  plan.validate config.whitelist

end Wireframe
