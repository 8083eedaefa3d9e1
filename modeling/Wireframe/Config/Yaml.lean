import Wireframe.Config.Reader
import Wireframe.Config.Json
import Wireframe.Json.Printer
import Wireframe.Text.Blank
import Wireframe.Yaml.Node
import Wireframe.Yaml.Number

namespace Wireframe

namespace Yaml

-- Reading with a number of aliases that may still be followed, since aliases can make a text stand
-- for much more than it says.
abbrev Following := StateT Nat Option

-- How many aliases may be followed for each sign of a document.
def aliasesPerSign : Nat := 100

-- The nodes of a document by their numbers, of several with one number the last.
def targetTable (document : Node) : List (Nat × Node) := document.targets.reverse

-- The node that is meant where one stands.
def meant (targets : List (Nat × Node)) : Node → Following Node
  | .alias number => do
    match ← get, targets.lookup number with
    | left + 1, some node =>
      set left
      return node
    | _, _ => failure
  | .numbered _ node => return node
  | node => return node

namespace Node

def text? : Node → Option String
  | scalar _ _ text => some text
  | _ => none

-- The text of a scalar that can be a number.
def digits? : Node → Option (List Char)
  | scalar .plain _ text => some text.toList
  | scalar .literal tag text => if tag == some intTag then some text.toList else none
  | _ => none

def isEmptyScalar : Node → Bool
  | scalar .plain _ text => text.isEmpty
  | _ => false

-- The spellings of nothing.
def nullTexts : List String := ["", "~", "null", "Null", "NULL"]

-- A choice is named by a scalar, or by the tag of one that says nothing.
def choice? : Node → Option String
  | scalar style tag text =>
    match tag.bind ownName? with
    | some name => if style == .plain && nullTexts.contains text then some name else none
    | none => some text
  | _ => none

def list? : Node → Option (List Node)
  | sequence items => some items
  | node => if node.isEmptyScalar then some [] else none

def entries? : Node → Option (List (Node × Node))
  | mapping entries => some entries
  | node => if node.isEmptyScalar then some [] else none

end Node

section

variable (targets : List (Nat × Node))

-- What a node is read as, if it is an alias by way of the node that it means.
def readAs {β : Type} (read? : Node → Option β) (node : Node) : Following β := do
  read? (← meant targets node)

def readTable (node : Node) : Following (List (String × Node)) := do
  (← readAs targets Node.entries? node).mapM fun (key, value) => do
    return (← readAs targets Node.text? key, value)

def format : DataFormat Following Node where
  text := readAs targets Node.text?
  choice := readAs targets Node.choice?
  nat := readAs targets fun node => node.digits?.bind natural?
  int := readAs targets fun node => node.digits?.bind integer?
  list := readAs targets Node.list?
  table := readTable targets
  record _ := readTable targets
  refuse := failure

end

-- The configuration that a document describes.
def Node.config? (document : Node) : Option Config :=
  ((format (targetTable document)).config document).run' (aliasesPerSign * document.extent)

end Yaml

-- Reads a configuration. A blank text is the standard one.
def Config.ofYaml? (text : String) : Option Config :=
  let chars := text.toList
  if (Text.trim chars).isEmpty then some {}
  else (Yaml.document? chars).bind Yaml.Node.config?

namespace Yaml

-- Puts a mark before the first of some lines and blanks of the same width before the others.
def mark (sign : String) (lines : List String) : List String :=
  match lines with
  | [] => []
  | line :: rest =>
    (sign ++ line) :: rest.map fun line => String.ofList (sign.toList.map fun _ => ' ') ++ line

mutual

-- The lines of a block with a value, in which texts stand as they are.
def blockLines : Json → List String
  | .null => ["null"]
  | .bool b => [if b then "true" else "false"]
  | .int n => [toString n]
  | .float x => [(Json.float x).compact]
  | .string s => [s]
  | .array items => itemLines items
  | .object fields => fieldLines fields

def itemLines : List Json → List String
  | [] => []
  | item :: rest => mark "- " (blockLines item) ++ itemLines rest

-- The items of a list stand below its key, the entries of a table further in.
def fieldLines : List (String × Json) → List String
  | [] => []
  | (key, value) :: rest =>
    (match value with
      | .array items => (key ++ ":") :: itemLines items
      | .object fields => (key ++ ":") :: (fieldLines fields).map ("  " ++ ·)
      | other => mark (key ++ ": ") (blockLines other)) ++ fieldLines rest

end

end Yaml

-- The lines that come before a configuration in a file.
def configHeading : List String :=
  ["# uiplan configuration", "# whitelist: permitted node kinds (layout | component)"]

-- The standard configuration as the content of a file. None of its texts needs quotes.
def standardConfigText : String :=
  String.join ((configHeading ++ Yaml.blockLines (Config.toJson {})).map (· ++ "\n"))

end Wireframe
