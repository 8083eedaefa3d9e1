import Wireframe.Json.Basic
import Wireframe.Pattern.Search

namespace Wireframe.Instruction

structure Field where
  label : String
  inputType : String
  placeholder : String
  deriving DecidableEq, Repr

def Field.toJson (field : Field) : Json :=
  .object [
    ("label", .string field.label), ("inputType", .string field.inputType),
    ("placeholder", .string field.placeholder)]

-- A field with the phrase that names it and its place among the fields of a form.
structure FieldRule where
  phrase : Pattern
  rank : Nat
  field : Field

namespace Phrase

open Pattern

def plural (word : String) : Pattern := lit word ++ opt (lit "s")

def confirmPassword : Pattern :=
  whole (lit "confirm" ++ opt (lit "ation") ++ blanks ++ lit "password")

def email : Pattern :=
  whole (lit "e" ++ opt (lit "-") ++ lit "mail" ++ opt (blanks ++ lit "address") ++
    opt (litOf ["es", "s"]))

def phone : Pattern :=
  whole (litOf ["phone", "telephone", "mobile"] ++ opt (blanks ++ plural "number"))

def date : Pattern :=
  whole (lit "date" ++ blanks ++ lit "of" ++ blanks ++ lit "birth" ||| lit "birthday" ||| lit "date")

end Phrase

open Pattern Phrase in
-- The rules in the order in which the fields are looked for.
def fieldRules : List FieldRule := [
  ⟨confirmPassword, 5, ⟨"Confirm Password", "password", "Repeat your password"⟩⟩,
  ⟨whole (plural "password"), 4, ⟨"Password", "password", "Enter your password"⟩⟩,
  ⟨email, 2, ⟨"Email", "email", "you@example.com"⟩⟩,
  ⟨whole (lit "user" ++ maybeBlanks ++ plural "name"), 1, ⟨"Username", "text", "Choose a username"⟩⟩,
  ⟨whole (opt (lit "full" ++ blanks) ++ plural "name"), 0, ⟨"Name", "text", "Jane Doe"⟩⟩,
  ⟨phone, 3, ⟨"Phone", "tel", "+1 555 0100"⟩⟩,
  ⟨whole (lit "subject"), 6, ⟨"Subject", "text", "What is this about?"⟩⟩,
  ⟨whole (lit "message" ||| plural "comment"), 7, ⟨"Message", "textarea", "Write your message"⟩⟩,
  ⟨whole (lit "address"), 8, ⟨"Address", "text", "123 Main St"⟩⟩,
  ⟨date, 9, ⟨"Date", "date", "YYYY-MM-DD"⟩⟩]

-- The rules that apply, each to the text that those before it have left. So the password in
-- "confirm password" is not found once more.
def matchingRules (text : List Char) : List FieldRule → List FieldRule
  | [] => []
  | rule :: rest =>
    if rule.phrase.occursIn text then
      rule :: matchingRules (rule.phrase.replaceAll [' '] text) rest
    else matchingRules text rest

-- The fields that the text names, in the order of a form.
def fields (text : List Char) : List Field :=
  ((matchingRules text fieldRules).mergeSort fun a b => a.rank ≤ b.rank).map (·.field)

-- The field with a label.
def standardField? (label : String) : Option Field :=
  (fieldRules.find? fun rule => rule.field.label == label).map (·.field)

end Wireframe.Instruction
