import Wireframe.Command.Run

namespace Wireframe.CommandLine

-- The system's number for a problem. Opening a file gives it with its sign turned, making a
-- directory as it is.
def errorNumber (code : UInt32) : UInt32 := if code < 0x80000000 then code else -code

def problemOf (error : IO.Error) : SystemProblem :=
  match error with
  | .noFileOrDirectory .. => .notFound
  | .alreadyExists .. => .alreadyExists
  | .inappropriateType _ code _ => if errorNumber code == 20 then .notDirectory else .isDirectory
  | .invalidArgument _ code _ => if errorNumber code == 36 then .nameTooLong else .zeroInName
  | .permissionDenied .. => .other "Permission denied (os error 13)"
  | .userError _ => .other "stream did not contain valid UTF-8"
  | error => .other (toString error)

def attempt {α : Type} (action : IO α) : IO (Except SystemProblem α) := do
  match ← action.toBaseIO with
  | .ok value => return .ok value
  | .error error => return .error (problemOf error)

-- The files that a command looks at, as they are now. What cannot be read may be there all the
-- same: it has a place in the file system then.
def look (command : Command) : IO Command.View := do
  let contents ← command.inputs.mapM fun (path : String) =>
    return (path, ← attempt (IO.FS.readFile path))
  let found ← command.inputs.filterM fun (path : String) =>
    return (← attempt (IO.FS.realPath path)).isOk
  return {
    read := fun path => (contents.lookup path).getD (.error .notFound)
    has := fun path => found.contains path }

-- Makes a directory and those above it that are missing. A file among those above is found out
-- before any of them is made.
def makePath (directory : String) : IO (Except SystemProblem Unit) := do
  match ← attempt (IO.FS.createDir directory) with
  | .ok _ => return .ok ()
  | .error .notDirectory => return .error .notDirectory
  | .error _ => attempt (IO.FS.createDirAll directory)

def perform (effect : Command.Effect) : IO (Except Command.Failure Unit) := do
  match effect with
  | .nothing => return .ok ()
  | .write path content =>
    return (← attempt (IO.FS.writeFile path content)).mapError (.cannotWrite path)
  | .establish directory path content =>
    match ← makePath directory with
    | .error problem => return .error (.cannotCreate directory problem)
    | .ok _ => return (← attempt (IO.FS.writeFile path content)).mapError (.cannotWrite path)

def usage : String := "usage: wireframe (init | plan | validate | diff | classify | check) [options]"

-- Files are read before the command is settled, and what it writes is written after.
def run (command : Command) : IO UInt32 := do
  let decision := command.settle (← look command)
  let report : Command.Report :=
    match ← perform decision.effect with
    | .ok _ => decision.report
    | .error failure => { failure := some failure }
  report.output.forM fun line => IO.println line
  report.errors.forM fun line => IO.eprintln line
  match report.failure with
  | none => return 0
  | some failure =>
    IO.eprintln ("error: " ++ failure.text)
    return 1

end Wireframe.CommandLine

def main (arguments : List String) : IO UInt32 := do
  match Wireframe.Command.ofArguments? arguments with
  | some command => Wireframe.CommandLine.run command
  | none =>
    IO.eprintln Wireframe.CommandLine.usage
    return 2
