namespace Wireframe

inductive SystemProblem where
  | notFound
  | alreadyExists
  | notDirectory
  | isDirectory
  | nameTooLong
  | zeroInName
  | other (message : String)
  deriving DecidableEq, Repr

def SystemProblem.text : SystemProblem → String
  | notFound => "No such file or directory (os error 2)"
  | alreadyExists => "File exists (os error 17)"
  | notDirectory => "Not a directory (os error 20)"
  | isDirectory => "Is a directory (os error 21)"
  | nameTooLong => "File name too long (os error 36)"
  | zeroInName => "file name contained an unexpected NUL byte"
  | other message => message

-- The names on the way from the top to a file or directory. Two points at the beginning lead above
-- the top, where nothing is known but the directories on the way up.
abbrev Location := List String

-- The top itself or a directory that it lies in.
def Location.isAtTop (spot : Location) : Bool := spot.all (· == "..")

inductive Entry where
  | file (content : String)
  | directory
  deriving DecidableEq, Repr

-- The directory that a command works in, the top. What is left out: a path that begins with a
-- slash is taken from here like any other, and not from the root of the file system; there are no
-- links, no special files, no files that are not UTF-8 text and no permissions; and a write that
-- has begun does not fail.
structure Workspace where
  files : List (Location × String) := []
  -- the directories below the top
  directories : List Location := []

namespace Workspace

def file? (w : Workspace) (spot : Location) : Option String := w.files.lookup spot

-- What there is at a location. The top and what it lies in are always there.
def entry? (w : Workspace) (spot : Location) : Option Entry :=
  match w.file? spot with
  | some content => some (.file content)
  | none => if spot.isAtTop || w.directories.contains spot then some .directory else none

def isDirectory (w : Workspace) (spot : Location) : Bool := w.entry? spot == some .directory

-- The most bytes that a name may have, and that a whole path may have.
def longestName : Nat := 255

def longestPath : Nat := 4095

-- What stands between the slashes of a path.
def pieces (path : String) : List String := (path.toList.splitOn '/').map String.ofList

-- The steps of a path.
def steps (path : String) : Except SystemProblem (List String) :=
  if path.toList.any fun c => c.toNat == 0 then .error .zeroInName
  else if longestPath < path.utf8ByteSize then .error .nameTooLong
  else .ok (pieces path)

-- A step from a directory.
def enter (spot : Location) (step : String) : Location :=
  if step == "" || step == "." then spot
  else if step == ".." && !spot.isAtTop then spot.dropLast
  else spot ++ [step]

-- Where the steps lead. Each one has to start from a directory.
def walk (w : Workspace) (spot : Location) : List String → Except SystemProblem Location
  | [] => .ok spot
  | step :: rest =>
    match w.entry? spot with
    | some .directory =>
      if longestName < step.utf8ByteSize then .error .nameTooLong
      else w.walk (enter spot step) rest
    | some (.file _) => .error .notDirectory
    | none => .error .notFound

-- The place that a path names.
def locate (w : Workspace) (path : String) : Except SystemProblem Location := do
  w.walk [] (← steps path)

-- The steps without slashes at the end.
def withoutEnd (steps : List String) : List String := (steps.reverse.dropWhile (· == "")).reverse

def find? (w : Workspace) (path : String) : Except SystemProblem Entry := do
  match w.entry? (← w.locate path) with
  | some entry => .ok entry
  | none => .error .notFound

def exists? (w : Workspace) (path : String) : Bool := (w.find? path).isOk

def read (w : Workspace) (path : String) : Except SystemProblem String := do
  match ← w.find? path with
  | .file content => .ok content
  | .directory => .error .isDirectory

def putFile (w : Workspace) (spot : Location) (content : String) : Workspace :=
  { w with files := (spot, content) :: w.files.filter fun entry => entry.1 != spot }

-- Writes a file, whether it is there or not. A path that ends with a slash names no file, but what it
-- lies in has to be a directory.
def write (w : Workspace) (path content : String) : Except SystemProblem Workspace := do
  let all ← steps path
  let named := withoutEnd all
  if named != all then
    let _ ← w.walk [] (named.dropLast ++ ["."])
    .error .isDirectory
  else
    let spot ← w.walk [] named
    if w.isDirectory spot then .error .isDirectory else return w.putFile spot content

-- Makes the directory that the steps lead to.
def makeDirectory (w : Workspace) (steps : List String) : Except SystemProblem Workspace := do
  let spot ← w.walk [] (withoutEnd steps)
  if (w.entry? spot).isSome then .error .alreadyExists
  else return { w with directories := spot :: w.directories }

-- The same, if there is none yet.
def ensureDirectory (w : Workspace) (steps : List String) : Except SystemProblem Workspace :=
  match w.makeDirectory steps with
  | .ok w => .ok w
  | .error problem =>
    match w.walk [] steps with
    | .ok spot => if w.isDirectory spot then .ok w else .error problem
    | .error _ => .error problem

-- The steps that name something: those for the same place count at the beginning only.
def names : List String → List String
  | [] => []
  | step :: rest =>
    (if step == "" then [] else [step]) ++ rest.filter fun step => step != "" && step != "."

-- Makes the directory at the end of the steps. Where the one above it is missing, that one is made
-- first, and it stays if nothing can be made in it. `above` are the named steps, of which there are
-- at most `levels`.
def makeDirectories (w : Workspace) (levels : Nat) (steps above : List String) :
    Workspace × Option SystemProblem :=
  match levels with
  | 0 => (w, none)
  | levels + 1 =>
    match w.ensureDirectory steps with
    | .ok after => (after, none)
    | .error .notFound =>
      let parent := above.dropLast
      match if parent.isEmpty then (w, none) else w.makeDirectories levels parent parent with
      | (between, some problem) => (between, some problem)
      | (between, none) =>
        match between.ensureDirectory steps with
        | .ok after => (after, none)
        | .error problem => (between, some problem)
    | .error problem => (w, some problem)

def makePath (w : Workspace) (path : String) : Workspace × Option SystemProblem :=
  match steps path with
  | .ok steps => w.makeDirectories (names steps).length steps (names steps)
  | .error problem => (w, some problem)

-- The file at a path is there with the directories on the way to it.
def place (w : Workspace) (path content : String) : Workspace :=
  let spot := names (pieces path)
  let missing := (List.range spot.length).map spot.take
  { files := (spot, content) :: w.files
    directories := w.directories ++ missing.filter fun d => !d.isEmpty }

-- The files right at the top whose content is not the one they had before.
def changedFiles (before after : Workspace) : List (String × String) :=
  after.files.filterMap fun (spot, content) =>
    match spot with
    | [name] => if before.file? spot == some content then none else some (name, content)
    | _ => none

end Workspace

end Wireframe
