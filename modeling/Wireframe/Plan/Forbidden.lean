import Wireframe.Json.Basic
import Wireframe.Text.Caseless

namespace Wireframe

-- The keys through which styles or markup could come in.
def forbiddenKeys : List String :=
  ["style", "styles", "classname", "class", "css", "sx", "tw", "dangerouslysetinnerhtml",
    "innerhtml", "outerhtml", "__html"]

def isForbiddenKey (key : String) : Bool :=
  forbiddenKeys.contains (String.ofList (Text.lowerAscii key.toList))

namespace Json

mutual

-- The first forbidden key in a value: a key comes before the keys in its value, and these before
-- the next key.
def forbidden? : Json → Option String
  | array items => forbiddenInItems? items
  | object fields => forbiddenInFields? fields
  | _ => none

def forbiddenInItems? : List Json → Option String
  | [] => none
  | item :: rest => (forbidden? item).or (forbiddenInItems? rest)

def forbiddenInFields? : List (String × Json) → Option String
  | [] => none
  | (key, value) :: rest =>
    if isForbiddenKey key then some key
    else (forbidden? value).or (forbiddenInFields? rest)

end

end Json

end Wireframe
