import Wireframe.Config.Basic
import Wireframe.Instruction.Field
import Wireframe.Instruction.Minimality

namespace Wireframe.Instruction

inductive Addition where
  | modal (title : String) (inputs : List Field)
  | chart
  | table
  deriving DecidableEq, Repr

structure Request where
  removals : List ComponentKind := []
  additions : List Addition := []
  deriving DecidableEq, Repr

namespace Addition

def kind : Addition → ComponentKind
  | modal _ _ => .modal
  | chart => .chart
  | table => .table

def toJson : Addition → Json
  | modal title inputs =>
    .object [
      ("kind", .string "modal"), ("title", .string title),
      ("inputs", .array (inputs.map Field.toJson))]
  | chart => .object [("kind", .string "chart")]
  | table => .object [("kind", .string "table")]

end Addition

namespace Request

def isEmpty (request : Request) : Bool := request.removals.isEmpty && request.additions.isEmpty

-- The entries of the request as an object.
def entries (request : Request) : Fields :=
  [("removals", Json.strings (request.removals.map ComponentKind.name)),
    ("additions", .array (request.additions.map Addition.toJson))]

end Request

inductive Verb where
  | remove | add
  deriving DecidableEq, Repr

namespace Phrase

open Pattern

def isPunctuation (c : Char) : Bool := ['.', ';', ':', '!', '?', ',', '\n'].contains c

def conjunction : Pattern :=
  some1 isPunctuation ||| whole (litOf ["and", "then", "also", "plus"])

def removing : Pattern :=
  whole (anyOf [
    lit "remove", lit "delete", lit "drop", lit "hide", lit "get" ++ blanks ++ lit "rid" ++ blanks ++ lit "of",
    lit "take" ++ blanks ++ lit "out", lit "eliminate"])

def adding : Pattern :=
  whole (litOf ["add", "insert", "include", "append", "put", "show", "create"])

end Phrase

-- The first verb of a clause.
def verb? (clause : List Char) : Option Verb :=
  match Phrase.removing.find? clause, Phrase.adding.find? clause with
  | some removing, some adding => if adding.start < removing.start then some .add else some .remove
  | some _, none => some .remove
  | none, some _ => some .add
  | none, none => none

-- The words for a kind of component in a request.
def targetKeywords : ComponentKind → List String
  | .sidebar => Concept.sidebar.keywords
  | .navbar => Concept.navbar.keywords
  | .chart => Concept.chart.keywords
  | .table => Concept.table.keywords
  | .modal => Concept.modal.keywords
  | .button => ["button", "cta"]
  | .input => ["input", "field", "text field", "text input"]
  | .card => ["card", "panel"]
  | .text => ["text", "paragraph", "text block", "copy"]

def targetPhrase (kind : ComponentKind) : Pattern := Pattern.whole (keywordOf (targetKeywords kind))

-- A kind that a clause names, with the place and the length of its name there.
structure Target where
  kind : ComponentKind
  start : Nat
  length : Nat

-- A target goes before another if it starts earlier or, from the same place, is longer.
def Target.before (a b : Target) : Bool :=
  a.start < b.start || (a.start == b.start && b.length < a.length)

def targetOf? (clause : List Char) (kind : ComponentKind) : Option Target :=
  ((targetPhrase kind).find? clause).map fun found => ⟨kind, found.start, found.length⟩

-- The foremost of the targets, of equals the one listed first.
def foremost? : List Target → Option Target
  | [] => none
  | target :: rest =>
    match foremost? rest with
    | some other => if other.before target then some other else some target
    | none => some target

def target? (kinds : List ComponentKind) (clause : List Char) : Option ComponentKind :=
  (foremost? (kinds.filterMap (targetOf? clause))).map (·.kind)

namespace Phrase

open Pattern

def inputOrField : Pattern := (plural "input" ||| plural "field") ++ edge

def isLetter (c : Char) : Bool := (Text.fold c).isLower

-- A number of inputs. The number is picked.
def inputCount : Pattern :=
  edge ++ pick (some1 Text.isDigit ||| litOf ["one", "two", "three", "four", "five", "six"]) ++
    blanks ++ opt (some1 isLetter ++ blanks) ++ inputOrField

end Phrase

def numberWords : Ledger Nat :=
  [("one", 1), ("two", 2), ("three", 3), ("four", 4), ("five", 5), ("six", 6)]

-- The number that a word stands for. Only ASCII counts here, both for letters and for digits.
def number? (word : List Char) : Option Nat :=
  (numberWords.get? (String.ofList (Text.lowerAscii word))).or (Text.decimal? word)

-- The number of inputs that the text asks for: a number if it gives one, two if it speaks of inputs
-- at all. A number that cannot be read asks for as many as there may be.
def inputCount (limits : Limits) (text : List Char) : Nat :=
  match (Phrase.inputCount.find? text).bind (·.picked) with
  | some word => min ((number? word).getD limits.maxModalInputs) limits.maxModalInputs
  | none =>
    if (Pattern.edge ++ Phrase.inputOrField).occursIn text then min 2 limits.maxModalInputs else 0

-- An input that the text says nothing about, by its place in the dialog.
def fillerField (place : Nat) : Field :=
  ⟨"Field " ++ toString place, "text", "Enter a value"⟩

-- The fields that the text names, cut off or filled up to the number asked for.
def modalInputs (limits : Limits) (text : List Char) : List Field :=
  let count := inputCount limits text
  let named := (fields text).take count
  named ++ (List.range' (named.length + 1) (count - named.length)).map fillerField

def addable : List ComponentKind := [.modal, .chart, .table]

-- The addition of an addable kind that a clause of a text asks for.
def additionOf (limits : Limits) (text clause : List Char) : ComponentKind → Addition
  | .modal =>
    .modal (if mentions clause .settings then "Settings" else "Dialog") (modalInputs limits text)
  | .chart => .chart
  | _ => .table

def Request.remove (request : Request) (kind : ComponentKind) : Request :=
  if request.removals.contains kind then request
  else { request with removals := request.removals ++ [kind] }

-- Only the first addition of a kind counts.
def Request.add (request : Request) (addition : Addition) : Request :=
  if request.additions.any (·.kind == addition.kind) then request
  else { request with additions := request.additions ++ [addition] }

-- What a clause under a verb adds to a request.
def Request.extend (limits : Limits) (text : List Char) (request : Request) (verb : Verb)
    (clause : List Char) : Request :=
  match verb with
  | .remove =>
    match target? ComponentKind.all clause with
    | some kind => request.remove kind
    | none => request
  | .add =>
    match target? addable clause with
    | some kind => request.add (additionOf limits text clause kind)
    | none => request

-- Reads the clauses in turn. `verb` is the last one.
def readClauses (limits : Limits) (text : List Char) (request : Request) (verb : Option Verb) :
    List (List Char) → Request
  | [] => request
  | clause :: rest =>
    match (verb? clause).or verb with
    | some verb => readClauses limits text (request.extend limits text verb clause) (some verb) rest
    | none => readClauses limits text request none rest

-- Removing wins over adding.
def Request.settle (request : Request) : Request :=
  { request with additions := request.additions.filter fun a => !request.removals.contains a.kind }

def request (limits : Limits) (text : List Char) : Request :=
  (readClauses limits text {} none (piecesBetween Phrase.conjunction text)).settle

end Wireframe.Instruction
