import Wireframe.Instruction.Concept
import Wireframe.Template.Part

namespace Wireframe.Template

open Instruction (Concept Features Field)

-- What a page is drawn from.
structure Context where
  features : Features
  fields : List Field
  placeholders : Placeholders

-- A body below a navbar, or without one, beside a sidebar, or without one.
def shell (p : Placeholders) (hasSidebar hasNavbar : Bool) (body : List Draft) : LayoutDraft :=
  let main := column ((if hasNavbar then [.component (navbar p)] else []) ++ body)
  if hasSidebar then row [.component (sidebar p), main.toDraft] else main

-- The cards that are asked for.
def requestedCards (context : Context) : List ComponentDraft :=
  (if context.features.has .chart then [chartCard context.placeholders] else []) ++
    if context.features.has .table then [tableCard context.placeholders] else []

-- Two cards: those that are asked for, filled up with text.
def splitCards (context : Context) : List ComponentDraft :=
  let cards := requestedCards context
  cards ++ List.replicate (2 - cards.length) (textCard context.placeholders)

def splitRow (context : Context) : LayoutDraft := row (components (splitCards context))

-- The body of a shell that is not split: a single card, unless two are asked for.
def mainContent (context : Context) : List Draft :=
  match requestedCards context with
  | [] => [.component (textCard context.placeholders)]
  | [only] => [.component only]
  | _ => [(splitRow context).toDraft]

def splitShell (hasSidebar hasNavbar : Bool) (context : Context) : LayoutDraft :=
  shell context.placeholders hasSidebar hasNavbar [(splitRow context).toDraft]

def plainShell (hasSidebar hasNavbar : Bool) (context : Context) : LayoutDraft :=
  shell context.placeholders hasSidebar hasNavbar (mainContent context)

-- One card for each headline figure.
def statsGrid (p : Placeholders) : LayoutDraft :=
  grid (min p.statCards.length (UInt32.size - 1)).toUInt32 <|
    components (p.statCards.map fun s => subtitledCard s.label s.value)

-- A dashboard has every part that is not excluded.
def dashboard (context : Context) : LayoutDraft :=
  let p := context.placeholders
  let lacks := context.features.lacks
  let insights :=
    (if lacks .chart then [] else [chartCard p]) ++ if lacks .table then [] else [tableCard p]
  shell p (!lacks .sidebar) (!lacks .navbar) <|
    (statsGrid p).toDraft ::
      if insights.isEmpty then [] else [(row (components insights)).toDraft]

-- The fields of the instruction or, if it has none, those with the given labels.
def fieldsOr (context : Context) (labels : List String) : List Field :=
  if context.fields.isEmpty then labels.filterMap Instruction.standardField? else context.fields

-- Inputs and a button, in a dialog if one is asked for and in a card otherwise.
def form (title : String) (labels : List String) (submit : String) (context : Context) :
    LayoutDraft :=
  let container := if context.features.has .modal then modal title else card title
  let inputs := (fieldsOr context labels).map input
  column [.component (container.append (inputs ++ [button submit "primary"]))]

def login : Context → LayoutDraft := form "Sign in" ["Email", "Password"] "Sign in"

def signup : Context → LayoutDraft :=
  form "Create account" ["Name", "Email", "Password", "Confirm Password"] "Sign up"

def contact : Context → LayoutDraft :=
  form "Contact us" ["Name", "Email", "Message"] "Send message"

def settings : Context → LayoutDraft := form "Settings" ["Name", "Email"] "Save changes"

def plainForm : Context → LayoutDraft := form "Form" ["Name", "Email"] "Submit"

def minimal (title : String) : LayoutDraft := column [.component (card title)]

def standard (context : Context) : LayoutDraft :=
  column [.component (textCard context.placeholders)]

def stats (context : Context) : LayoutDraft := statsGrid context.placeholders

def kanban (context : Context) : LayoutDraft :=
  let p := context.placeholders
  row (components (p.kanbanLanes.map fun lane => (card lane).append [text p.bodyText]))

def pricing (context : Context) : LayoutDraft :=
  row <| components <| context.placeholders.pricingTiers.map fun tier =>
    (subtitledCard tier.name tier.price).append
      [text (String.intercalate ", " tier.features), button "Choose plan" "primary"]

def gallery (context : Context) : LayoutDraft :=
  let p := context.placeholders
  grid p.galleryColumns <|
    components ((List.range' 1 p.gallerySize.toNat).map fun i => card ("Item " ++ toString i))

def landing (context : Context) : LayoutDraft :=
  let p := context.placeholders
  let hero := (subtitledCard p.appTitle p.bodyText).append [button "Get started" "primary"]
  column (components [navbar p, hero])

def tableAndChart (context : Context) : LayoutDraft :=
  column (components [chartCard context.placeholders, tableCard context.placeholders])

def tableOnly (context : Context) : LayoutDraft :=
  column [.component (tableCard context.placeholders)]

def chartOnly (context : Context) : LayoutDraft :=
  column [.component (chartCard context.placeholders)]

def modalOnly (context : Context) : LayoutDraft :=
  let parts := text context.placeholders.bodyText ::
    context.fields.map input ++ [button "Close" "secondary"]
  column [.component ((modal "Dialog").append parts)]

def profile (context : Context) : LayoutDraft :=
  column [.component <| (card "Profile").append
    [text context.placeholders.bodyText, button "Edit profile" "secondary"]]

end Wireframe.Template
