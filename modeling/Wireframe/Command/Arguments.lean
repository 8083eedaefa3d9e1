import Wireframe.Ledger

namespace Wireframe

inductive Command where
  | init (path : String)
  | plan (text : String) (previous config out : Option String)
  | validate (file : String) (config : Option String)
  | diff (previous current : String)
  | classify (text : String) (previous config : Option String)
  | check (text : String)
  deriving DecidableEq, Repr

namespace Command

-- An option has a long name and perhaps a letter. Its value follows as an argument of its own or
-- in the same one.
structure Flag where
  name : String
  letter : Option Char
  -- the value is a path, which may not be empty
  isPath : Bool

def textFlag : Flag := ⟨"text", some 't', false⟩

def previousFlag : Flag := ⟨"previous", some 'p', true⟩

def configFlag : Flag := ⟨"config", some 'c', true⟩

def outFlag : Flag := ⟨"out", some 'o', true⟩

def fileFlag : Flag := ⟨"file", some 'f', true⟩

-- A flag that has no letter.
def longOnly (flag : Flag) : Flag := { flag with letter := none }

-- What the arguments of a command say.
structure Given where
  values : Ledger String := []
  operands : List String := []

-- Sets the value of a flag that has none yet.
def Given.set? (given : Given) (flag : Flag) (value : String) : Option Given :=
  if given.values.contains flag.name || (flag.isPath && value.isEmpty) then none
  else some { given with values := given.values.insert flag.name value }

-- An argument that can be a value or an operand.
def isPlain (argument : List Char) : Bool := argument.head? != some '-' || argument == ['-']

-- How an argument names a flag, and the value that it brings along.
inductive Form where
  | operand
  | endOfFlags
  | flag (flag : Flag) (value : Option String)
  | unknown

-- A long name, perhaps with an equals sign and a value.
def longForm (flags : List Flag) (argument : List Char) : Form :=
  let name := argument.takeWhile (· != '=')
  let value := argument.drop name.length
  match flags.find? fun flag => flag.name == String.ofList name with
  | some flag => .flag flag (if value.isEmpty then none else some (String.ofList value.tail))
  | none => .unknown

-- A letter, perhaps with a value behind it. An equals sign between them does not count.
def shortForm (flags : List Flag) (letter : Char) (value : List Char) : Form :=
  match flags.find? fun flag => flag.letter == some letter with
  | some flag =>
    if value.isEmpty then .flag flag none
    else .flag flag (some (String.ofList (if value.head? == some '=' then value.tail else value)))
  | none => .unknown

def formOf (flags : List Flag) (argument : String) : Form :=
  match argument.toList with
  | ['-', '-'] => .endOfFlags
  | '-' :: '-' :: name => longForm flags name
  | '-' :: letter :: value => shortForm flags letter value
  | _ => .operand

def readArguments? (flags : List Flag) (given : Given) : List String → Option Given
  | [] => some given
  | argument :: rest =>
    match formOf flags argument with
    | .operand => readArguments? flags { given with operands := given.operands ++ [argument] } rest
    | .endOfFlags => some { given with operands := given.operands ++ rest }
    | .flag flag (some value) => do readArguments? flags (← given.set? flag value) rest
    | .flag flag none =>
      match rest with
      | value :: rest =>
        if isPlain value.toList then do readArguments? flags (← given.set? flag value) rest
        else none
      | [] => none
    | .unknown => none

-- The values of flags, for a command without operands.
def values? (flags : List Flag) (arguments : List String) : Option (Ledger String) := do
  let given ← readArguments? flags {} arguments
  if given.operands.isEmpty then some given.values else none

def init? (arguments : List String) : Option Command := do
  match (← readArguments? [] {} arguments).operands with
  | [] => some (.init ".")
  | [path] => if path.isEmpty then none else some (.init path)
  | _ => none

def plan? (arguments : List String) : Option Command := do
  let values ← values? [textFlag, previousFlag, configFlag, outFlag] arguments
  return .plan (← values.get? "text") (values.get? "previous") (values.get? "config")
    (values.get? "out")

def validate? (arguments : List String) : Option Command := do
  let values ← values? [fileFlag, configFlag] arguments
  return .validate (← values.get? "file") (values.get? "config")

def diff? (arguments : List String) : Option Command := do
  let values ← values? [longOnly previousFlag, ⟨"current", none, true⟩] arguments
  return .diff (← values.get? "previous") (← values.get? "current")

def classify? (arguments : List String) : Option Command := do
  let values ← values? [textFlag, previousFlag, configFlag] arguments
  return .classify (← values.get? "text") (values.get? "previous") (values.get? "config")

def check? (arguments : List String) : Option Command := do
  let values ← values? [textFlag] arguments
  return .check (← values.get? "text")

-- The command that the arguments write, if they write one.
def ofArguments? : List String → Option Command
  | [] => none
  | name :: arguments =>
    match name with
    | "init" => init? arguments
    | "plan" => plan? arguments
    | "validate" => validate? arguments
    | "diff" => diff? arguments
    | "classify" => classify? arguments
    | "check" => check? arguments
    | _ => none

end Command

end Wireframe
