import Wireframe.Pattern.Search

namespace Wireframe.Instruction

inductive Concept where
  | sidebar | navbar | twoColumns | chart | table | form | modal | dashboard | login | signup
  | contact | settings | profile | pricing | landing | gallery | kanban | stats
  deriving DecidableEq, Repr

namespace Concept

def all : List Concept :=
  [sidebar, navbar, twoColumns, chart, table, form, modal, dashboard, login, signup, contact,
    settings, profile, pricing, landing, gallery, kanban, stats]

-- Those that ask for real structure.
def complex : List Concept := [dashboard, sidebar, navbar, twoColumns, chart, table]

def name : Concept → String
  | sidebar => "sidebar"
  | navbar => "navbar"
  | twoColumns => "two_columns"
  | chart => "chart"
  | table => "table"
  | form => "form"
  | modal => "modal"
  | dashboard => "dashboard"
  | login => "login"
  | signup => "signup"
  | contact => "contact"
  | settings => "settings"
  | profile => "profile"
  | pricing => "pricing"
  | landing => "landing"
  | gallery => "gallery"
  | kanban => "kanban"
  | stats => "stats"

def ofName? (name : String) : Option Concept := all.find? (·.name == name)

-- The words for a concept. A blank stands for any blanks and hyphens.
def keywords : Concept → List String
  | sidebar =>
    ["sidebar", "side bar", "side panel", "side nav", "side navigation", "navigation panel",
      "drawer"]
  | navbar =>
    ["navbar", "nav bar", "top bar", "topbar", "header", "navigation bar", "app bar", "menu bar"]
  | twoColumns =>
    ["two columns", "two column", "2 columns", "two cards", "2 cards", "side by side", "split view"]
  | chart => ["chart", "graph", "plot", "visualization"]
  | table => ["table", "data grid", "spreadsheet"]
  | form => ["form", "input field", "text field"]
  | modal => ["modal", "dialog", "popup", "pop-up"]
  | dashboard => ["dashboard", "admin panel"]
  | login => ["login", "log in", "sign in", "signin"]
  | signup => ["signup", "sign up", "register", "registration"]
  | contact => ["contact"]
  | settings => ["settings", "preferences"]
  | profile => ["profile", "user card"]
  | pricing => ["pricing", "price plan", "subscription tier"]
  | landing => ["landing", "hero", "homepage", "home page"]
  | gallery => ["gallery", "photo grid", "image grid", "portfolio"]
  | kanban => ["kanban", "task board"]
  | stats => ["stats", "statistics", "metrics", "kpi"]

end Concept

def isBlankOrHyphen (c : Char) : Bool := Text.isBlank c || c == '-'

-- The characters of a keyword, one after the other.
def keywordLetters : List Char → Pattern
  | [] => .empty
  | c :: rest =>
    (if c == ' ' then Pattern.some1 isBlankOrHyphen else Pattern.letter c) ++ keywordLetters rest

def keyword (text : String) : Pattern := keywordLetters text.toList

-- One of the keywords, or one with an s at its end.
def keywordOf (keywords : List String) : Pattern :=
  Pattern.anyOf (keywords.map keyword) ++ Pattern.opt (Pattern.lit "s")

-- The characters that have a meaning of their own in the notation for patterns.
def isPatternSign (c : Char) : Bool :=
  ['\\', '.', '+', '*', '?', '(', ')', '|', '[', ']', '{', '}', '^', '$', '#', '&', '-', '~'].contains c

-- A keyword in the usual notation for patterns.
def keywordNotation (text : String) : List Char :=
  text.toList.flatMap fun c =>
    if c == ' ' then ['[', '\\', 's', '-', ']', '+']
    else if isPatternSign c then ['\\', c]
    else [c]

-- A choice of keywords in the usual notation for patterns.
def alternation (keywords : List String) : String :=
  String.ofList <|
    ['(', '?', ':'] ++ ['|'].intercalate (keywords.map keywordNotation) ++ [')']

namespace Phrase

open Pattern

def mention (concept : Concept) : Pattern := whole (keywordOf concept.keywords)

def isApostrophe (c : Char) : Bool := c == '\'' || c == '’'

-- Do not do something with what follows.
def doNot : Pattern :=
  (lit "don" ++ opt (one isApostrophe) ++ lit "t" ||| lit "do" ++ blanks ++ lit "not") ++ blanks ++
    litOf ["add", "use", "include", "want", "need"]

def exclusion (concept : Concept) : Pattern :=
  edge ++ (lit "remove" ||| lit "without" ||| lit "no" ||| doNot) ++ blanks ++
    opt (litOf ["the", "a", "an", "any"] ++ blanks) ++ keywordOf concept.keywords ++ edge

def anyExclusion : Pattern := whole (litOf ["remove", "without"])

end Phrase

def mentions (text : List Char) (concept : Concept) : Bool := (Phrase.mention concept).occursIn text

-- Two columns are excluded by any "remove" or "without", whatever it belongs to.
def excludes (text : List Char) (concept : Concept) : Bool :=
  match concept with
  | .twoColumns => Phrase.anyExclusion.occursIn text
  | _ => (Phrase.exclusion concept).occursIn text

def requires (text : List Char) (concept : Concept) : Bool :=
  mentions text concept && !excludes text concept

def requiresComplex (text : List Char) : Bool := Concept.complex.any (requires text)

-- The concepts that are mentioned, sorted into those asked for and those excluded.
structure Features where
  required : List Concept
  excluded : List Concept
  deriving DecidableEq

namespace Features

def ofText (text : List Char) : Features :=
  let (excluded, required) := (Concept.all.filter (mentions text)).partition (excludes text)
  { required, excluded }

def has (features : Features) (concept : Concept) : Bool := features.required.contains concept

def lacks (features : Features) (concept : Concept) : Bool := features.excluded.contains concept

end Features

end Wireframe.Instruction
