import Wireframe.Fault
import Wireframe.Instruction.Intent
import Wireframe.Template.Page

namespace Wireframe.Template

open Instruction (Concept Features Intent)

structure Rule where
  name : String
  needs : List Concept
  draw : Context → LayoutDraft

def Rule.applies (rule : Rule) (features : Features) : Bool := rule.needs.all features.has

-- From the most specific template to the one that always applies.
def catalogue : List Rule := [
  ⟨"sidebar_navbar_split", [.sidebar, .navbar, .twoColumns], splitShell true true⟩,
  ⟨"dashboard", [.dashboard], dashboard⟩,
  ⟨"sidebar_navbar", [.sidebar, .navbar], plainShell true true⟩,
  ⟨"sidebar_split", [.sidebar, .twoColumns], splitShell true false⟩,
  ⟨"sidebar", [.sidebar], plainShell true false⟩,
  ⟨"navbar_split", [.navbar, .twoColumns], splitShell false true⟩,
  ⟨"navbar", [.navbar], plainShell false true⟩,
  ⟨"split", [.twoColumns], splitRow⟩,
  ⟨"login", [.login], login⟩,
  ⟨"signup", [.signup], signup⟩,
  ⟨"contact", [.contact], contact⟩,
  ⟨"settings", [.settings], settings⟩,
  ⟨"form", [.form], plainForm⟩,
  ⟨"kanban", [.kanban], kanban⟩,
  ⟨"pricing", [.pricing], pricing⟩,
  ⟨"gallery", [.gallery], gallery⟩,
  ⟨"stats", [.stats], stats⟩,
  ⟨"landing", [.landing], landing⟩,
  ⟨"table_chart", [.table, .chart], tableAndChart⟩,
  ⟨"table", [.table], tableOnly⟩,
  ⟨"chart", [.chart], chartOnly⟩,
  ⟨"modal", [.modal], modalOnly⟩,
  ⟨"profile", [.profile], profile⟩,
  ⟨"default", [], standard⟩]

def select? (features : Features) : Option Rule := catalogue.find? (·.applies features)

-- Every root has the spacing of the configuration.
def spaced (p : Placeholders) (draft : LayoutDraft) : LayoutDraft :=
  { draft with spacing := { draft.spacing with gap := some p.gap, padding := some p.padding } }

def draft (p : Placeholders) : Intent → Except Fault LayoutDraft
  | .minimal title _ => .ok (minimal title)
  | .structured features fields =>
    match select? features with
    | some rule => .ok (rule.draw { features, fields, placeholders := p })
    | none => .error (.generation .noTemplate)
  | .edit _ => .error (.generation .editWithoutPlan)

-- The root of a new plan.
def synthesize (p : Placeholders) (intent : Intent) : Except Fault Layout :=
  (draft p intent).map fun draft => (spaced p draft).build

end Wireframe.Template
