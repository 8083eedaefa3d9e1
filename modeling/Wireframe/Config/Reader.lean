import Wireframe.Config.Basic

namespace Wireframe

-- How a format shows its values. Looking at a value is a step in `m`, which can fail.
structure DataFormat (m : Type → Type) (α : Type) where
  text : α → m String
  -- the name of one of several choices
  choice : α → m String
  -- a whole number without sign
  nat : α → m Nat
  int : α → m Int
  list : α → m (List α)
  -- the entries of a table, in order, with those that repeat a key
  table : α → m (List (String × α))
  -- the entries of a record that has fields of the given names
  record : List String → α → m (List (String × α))
  -- the step that fails
  refuse : {β : Type} → m β

namespace DataFormat

variable {m : Type → Type} [Monad m] {α β : Type} (format : DataFormat m α)

-- A value that may be missing.
def require : Option β → m β
  | some value => pure value
  | none => format.refuse

-- A field may be given once. What is given must be readable; what is not takes the default, if
-- there is one.
def field (fields : List (String × α)) (name : String) (default : Option β) (read : α → m β) :
    m β :=
  match fields.filter fun entry => entry.1 == name with
  | [] => format.require default
  | [entry] => read entry.2
  | _ => format.refuse

def listOf (read : α → m β) (value : α) : m (List β) := do
  (← format.list value).mapM read

def texts (value : α) : m (List String) := format.listOf format.text value

-- A whole number below a bound.
def natBelow (bound : Nat) (value : α) : m Nat := do
  let n ← format.nat value
  if n < bound then return n else format.refuse

def word (value : α) : m UInt32 := return (← format.natBelow UInt32.size value).toUInt32

def int64 (value : α) : m Int64 := do
  let n ← format.int value
  if Int64.minValue.toInt ≤ n && n ≤ Int64.maxValue.toInt then return Int64.ofInt n else format.refuse

def role (value : α) : m Role := do format.require (Role.ofName? (← format.choice value))

def chartPoint (value : α) : m ChartPoint := do
  let fields ← format.record ["label", "value"] value
  return {
    label := ← format.field fields "label" none format.text
    value := ← format.field fields "value" none format.int64 }

def statCard (value : α) : m StatCard := do
  let fields ← format.record ["label", "value"] value
  return {
    label := ← format.field fields "label" none format.text
    value := ← format.field fields "value" none format.text }

def pricingTier (value : α) : m PricingTier := do
  let fields ← format.record ["name", "price", "features"] value
  return {
    name := ← format.field fields "name" none format.text
    price := ← format.field fields "price" none format.text
    features := ← format.field fields "features" (some []) format.texts }

-- A repeated name takes the last role.
def whitelist (value : α) : m Whitelist := do
  let entries ← (← format.table value).mapM fun (name, role) => do
    return (name, ← format.role role)
  return Ledger.ofList entries

def placeholderNames : List String :=
  ["card_title", "minimal_title", "app_title", "body_text", "sidebar_items", "navbar_links",
    "table_columns", "table_rows", "chart_series", "stat_cards", "pricing_tiers", "kanban_lanes",
    "gallery_size", "gallery_columns", "gap", "padding"]

def placeholders (value : α) : m Placeholders := do
  let fields ← format.record placeholderNames value
  let standard : Placeholders := {}
  return {
    cardTitle := ← format.field fields "card_title" standard.cardTitle format.text
    minimalTitle := ← format.field fields "minimal_title" standard.minimalTitle format.text
    appTitle := ← format.field fields "app_title" standard.appTitle format.text
    bodyText := ← format.field fields "body_text" standard.bodyText format.text
    sidebarItems := ← format.field fields "sidebar_items" standard.sidebarItems format.texts
    navbarLinks := ← format.field fields "navbar_links" standard.navbarLinks format.texts
    tableColumns := ← format.field fields "table_columns" standard.tableColumns format.texts
    tableRows := ← format.field fields "table_rows" standard.tableRows (format.listOf format.texts)
    chartSeries :=
      ← format.field fields "chart_series" standard.chartSeries (format.listOf format.chartPoint)
    statCards :=
      ← format.field fields "stat_cards" standard.statCards (format.listOf format.statCard)
    pricingTiers :=
      ← format.field fields "pricing_tiers" standard.pricingTiers (format.listOf format.pricingTier)
    kanbanLanes := ← format.field fields "kanban_lanes" standard.kanbanLanes format.texts
    gallerySize := ← format.field fields "gallery_size" standard.gallerySize format.word
    galleryColumns := ← format.field fields "gallery_columns" standard.galleryColumns format.word
    gap := ← format.field fields "gap" standard.gap format.word
    padding := ← format.field fields "padding" standard.padding format.word }

def limits (value : α) : m Limits := do
  let fields ← format.record ["max_input_chars", "max_modal_inputs"] value
  let standard : Limits := {}
  return {
    maxInputChars :=
      ← format.field fields "max_input_chars" standard.maxInputChars (format.natBelow UInt64.size)
    maxModalInputs :=
      ← format.field fields "max_modal_inputs" standard.maxModalInputs (format.natBelow UInt64.size) }

-- What is left out takes its default, and entries with other names are passed over.
def config (value : α) : m Config := do
  let fields ← format.record ["whitelist", "placeholders", "limits"] value
  return {
    whitelist := ← format.field fields "whitelist" (some .full) format.whitelist
    placeholders := ← format.field fields "placeholders" (some {}) format.placeholders
    limits := ← format.field fields "limits" (some {}) format.limits }

end DataFormat

end Wireframe
