import Wireframe.Config.Basic
import Wireframe.Fault
import Wireframe.Text.Blank

namespace Wireframe.Instruction

-- The text without hidden characters, control characters turned into spaces.
def visible (text : List Char) : List Char :=
  (text.filter fun c => !Text.isHidden c).map fun c => if Text.isControl c then ' ' else c

-- The words of the text with single spaces between them.
def tidy (text : List Char) : List Char := [' '].intercalate (Text.words (visible text))

def clean (limits : Limits) (text : List Char) : Except Fault (List Char) :=
  let tidied := tidy text
  if tidied.isEmpty then .error (.input .empty)
  else if limits.maxInputChars < tidied.length then
    .error (.input (.tooLong tidied.length limits.maxInputChars))
  else .ok tidied

end Wireframe.Instruction
