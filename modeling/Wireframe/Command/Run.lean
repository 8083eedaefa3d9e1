import Wireframe.Command.Arguments
import Wireframe.Command.Workspace
import Wireframe.Compiler
import Wireframe.Config.Problem
import Wireframe.Config.Yaml
import Wireframe.Plan.Fingerprint
import Wireframe.Plan.Reader

namespace Wireframe

namespace Command

inductive Failure where
  | configExists (path : String)
  | cannotCreate (path : String) (problem : SystemProblem)
  | cannotWrite (path : String) (problem : SystemProblem)
  | cannotRead (path : String) (problem : SystemProblem)
  | configText
  | badConfig (problems : List ConfigProblem)
  | planFile (path : String) (fault : Fault)
  -- no plan could be made
  | compilation (fault : Fault)
  | instruction (fault : Fault)
  | rejected
  | notJson (path : String)
  | notPlan (path : String)

def Failure.text : Failure → String
  | configExists path => path ++ " already exists"
  | cannotCreate path problem => "cannot create " ++ path ++ ": " ++ problem.text
  | cannotWrite path problem => "cannot write " ++ path ++ ": " ++ problem.text
  | cannotRead path problem => "failed to read " ++ path ++ ": " ++ problem.text
  | configText => "YAML parse error"
  | badConfig problems =>
    "invalid config: " ++ String.intercalate "; " (problems.map ConfigProblem.text)
  | planFile path fault => path ++ ": " ++ fault.text
  | compilation fault => fault.text ++ " (" ++ fault.code ++ ")"
  | instruction fault => fault.text
  | rejected => "instruction rejected"
  | notJson path => "invalid JSON in " ++ path
  | notPlan path => path ++ " is not a valid plan"

-- What a command changes.
inductive Effect where
  | nothing
  | write (path content : String)
  -- writes a file in a directory that is made if need be
  | establish (directory path content : String)

-- What a command prints, by lines, and whether it fails.
structure Report where
  output : List String := []
  errors : List String := []
  failure : Option Failure := none

-- What a command has settled on once it has looked at its files. It changes something only if
-- nothing went wrong.
structure Decision where
  report : Report
  effect : Effect := .nothing

-- What a command can see of the directory.
structure View where
  read : String → Except SystemProblem String
  has : String → Bool

def Decision.ofExcept : Except Failure Decision → Decision
  | .ok decision => decision
  | .error failure => { report := { failure := some failure } }

def readFile (view : View) (path : String) : Except Failure String :=
  (view.read path).mapError (.cannotRead path)

def loadConfig (view : View) (path : Option String) : Except Failure Config := do
  let config ←
    match path with
    | none => pure {}
    | some path =>
      match Config.ofYaml? (← readFile view path) with
      | some config => .ok config
      | none => .error .configText
  if config.problems.isEmpty then return config else .error (.badConfig config.problems)

def loadPlan (view : View) (config : Config) (path : String) : Except Failure Plan := do
  let text ← readFile view path
  let plan : Reading Plan := do (← Plan.parse text).validate config.whitelist
  plan.mapError (.planFile path)

def loadPrevious (view : View) (config : Config) : Option String → Except Failure (Option Plan)
  | none => .ok none
  | some path => (loadPlan view config path).map some

def countsLine (difference : Difference) : String :=
  let count (sort : ChangeSort) := toString (difference.count sort)
  "Diff: " ++ count .added ++ " added, " ++ count .updated ++ " updated, " ++ count .removed ++
    " removed, " ++ count .unchanged ++ " unchanged."

def changeSign : ChangeSort → String
  | .added => "+"
  | .updated => "~"
  | .removed => "-"
  | .unchanged => " "

def differenceLines (difference : Difference) : List String :=
  ["Diff (" ++ difference.modification.name ++ "): " ++ toString difference.changed.length ++
    " changed node(s)", ""] ++
  (if difference.changes.isEmpty then difference.changed.map ("  ! " ++ ·) else []) ++
  (difference.changes.map fun (id, change) =>
    "  " ++ changeSign change.change.sort ++ " " ++ Difference.describe id change) ++
  ["", countsLine difference]

-- The path of the configuration file in a directory.
def configPath (directory : String) : String :=
  directory ++ (if directory.toList.getLast? == some '/' then "" else "/") ++ "uiplan.yaml"

def settleInit (view : View) (directory : String) : Except Failure Decision :=
  let path := configPath directory
  if view.has path then .error (.configExists path)
  else
    .ok {
      report := { output := ["Initialized uiplan config at " ++ path] }
      effect := .establish directory path standardConfigText }

def settlePlan (view : View) (text : String) (previous config out : Option String) :
    Except Failure Decision := do
  let config ← loadConfig view config
  let prior ← loadPrevious view config previous
  let plan ← (compile config prior text).mapError .compilation
  let json := plan.toJson.pretty
  let counts := prior.toList.map fun prior => countsLine (.between (some prior) plan)
  match out with
  | some path =>
    return {
      report := {
        output := [
          "Wrote " ++ path ++ " (" ++ plan.modification.name ++ ", " ++
            toString plan.nodes.length ++ " nodes)",
          "  Fingerprint: " ++ plan.fingerprint]
        errors := counts }
      effect := .write path json }
  | none =>
    return {
      report := { output := [json], errors := ("fingerprint: " ++ plan.fingerprint) :: counts } }

def settleValidate (view : View) (file : String) (config : Option String) :
    Except Failure Decision := do
  let config ← loadConfig view config
  match Json.parse? (← readFile view file) with
  | none => .error (.notJson file)
  | some json =>
    match Plan.accept config.whitelist json with
    | .ok accepted =>
      return {
        report := { output := ["OK: " ++ file ++ " (" ++ toString accepted.nodes.length ++ " nodes)"] } }
    | .error fault =>
      return {
        report := {
          errors := ["  ERROR [" ++ fault.code ++ "]: " ++ fault.text]
          failure := some (.notPlan file) } }

def settleDiff (view : View) (previous current : String) : Except Failure Decision := do
  let before ← loadPlan view {} previous
  let after ← loadPlan view {} current
  return { report := { output := differenceLines (.between (some before) after) } }

def settleClassify (view : View) (text : String) (previous config : Option String) :
    Except Failure Decision := do
  let config ← loadConfig view config
  let prior ← loadPrevious view config previous
  (Instruction.checkSafe text.toList).mapError .instruction
  let cleaned ← (Instruction.clean config.limits text.toList).mapError .instruction
  return {
    report := { output := [(Instruction.classify config prior.isSome cleaned).toJson.pretty] } }

def settleCheck (text : String) : Except Failure Decision :=
  match Instruction.threat? text.toList with
  | some threat =>
    .ok { report := { output := ["REJECTED: " ++ threat.reason], failure := some .rejected } }
  | none => do
    let cleaned ← (Instruction.clean {} text.toList).mapError .instruction
    return { report := { output := ["OK: " ++ toString cleaned.length ++ " characters"] } }

def settle (view : View) : Command → Decision
  | init path => .ofExcept (settleInit view path)
  | plan text previous config out => .ofExcept (settlePlan view text previous config out)
  | validate file config => .ofExcept (settleValidate view file config)
  | diff previous current => .ofExcept (settleDiff view previous current)
  | classify text previous config => .ofExcept (settleClassify view text previous config)
  | check text => .ofExcept (settleCheck text)

-- The files that a command looks at.
def inputs : Command → List String
  | init path => [configPath path]
  | plan _ previous config _ => previous.toList ++ config.toList
  | validate file config => file :: config.toList
  | diff previous current => [previous, current]
  | classify _ previous config => previous.toList ++ config.toList
  | check _ => []

end Command

namespace Workspace

open Command

def view (w : Workspace) : View := ⟨w.read, w.exists?⟩

-- The directory after an attempt to change it, and what went wrong, if anything did.
def perform (w : Workspace) : Effect → Workspace × Option Failure
  | .nothing => (w, none)
  | .write path content =>
    match w.write path content with
    | .ok after => (after, none)
    | .error problem => (w, some (.cannotWrite path problem))
  | .establish directory path content =>
    match w.makePath directory with
    | (between, some problem) => (between, some (.cannotCreate directory problem))
    | (between, none) =>
      match between.write path content with
      | .ok after => (after, none)
      | .error problem => (between, some (.cannotWrite path problem))

-- What a command says, and the directory after it. Of a command that fails to write there is nothing
-- to see but that.
def run (w : Workspace) (command : Command) : Report × Workspace :=
  let decision := command.settle w.view
  match w.perform decision.effect with
  | (after, none) => (decision.report, after)
  | (after, some failure) => ({ failure := some failure }, after)

end Workspace

end Wireframe
