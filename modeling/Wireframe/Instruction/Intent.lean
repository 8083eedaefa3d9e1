import Wireframe.Instruction.Request
import Wireframe.Plan.Basic

namespace Wireframe.Instruction

inductive Intent where
  | minimal (title : String) (source : MinimalitySource)
  | structured (features : Features) (fields : List Field)
  | edit (request : Request)

structure Classification where
  modification : Modification
  intent : Intent

namespace Phrase

open Pattern

-- To start over.
def anew : Pattern :=
  whole (anyOf [
    lit "start" ++ opt (lit "ing") ++ blanks ++ litOf ["over", "again", "fresh"],
    lit "from" ++ blanks ++ lit "scratch",
    lit "completely",
    lit "regenerate",
    lit "redo",
    lit "brand" ++ some1 isBlankOrHyphen ++ lit "new",
    lit "rebuild"])

def changing : Pattern :=
  whole (litOf ["add", "modify", "change", "update", "remove", "delete"])

end Phrase

-- What the instruction wants if there is nothing to change.
def freshIntent (placeholders : Placeholders) (text : List Char) : Intent :=
  match minimality? text with
  | some source =>
    .minimal (((title? text).map String.ofList).getD placeholders.minimalTitle) source
  | none => .structured (Features.ofText text) (fields text)

def classify (config : Config) (hasPrevious : Bool) (text : List Char) : Classification :=
  if hasPrevious && Phrase.anew.occursIn text then
    ⟨.regenerate, freshIntent config.placeholders text⟩
  else if hasPrevious && Phrase.changing.occursIn text then
    ⟨.edit, .edit (request config.limits text)⟩
  else ⟨.create, freshIntent config.placeholders text⟩

def Features.toJson (features : Features) : Json :=
  .object [
    ("required", .strings (features.required.map Concept.name)),
    ("negated", .strings (features.excluded.map Concept.name))]

-- The entries that tell an intent.
def Intent.entries : Intent → Fields
  | minimal title source =>
    [("intent", .string "minimal"), ("title", .string title), ("source", .string source.name)]
  | structured features fields =>
    [("intent", .string "structured"), ("features", features.toJson),
      ("fields", .array (fields.map Field.toJson))]
  | edit request => ("intent", .string "edit") :: request.entries

def Classification.toJson (classification : Classification) : Json :=
  .object <|
    ("modificationType", .string classification.modification.name) ::
      classification.intent.entries

end Wireframe.Instruction
