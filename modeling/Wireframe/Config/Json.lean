import Wireframe.Config.Reader
import Wireframe.Json.Basic

namespace Wireframe

namespace Json

-- A choice is written as its name, or as the only key of an object with the value null.
def choice? : Json → Option String
  | string name => some name
  | object [(name, null)] => some name
  | _ => none

-- A record is written as an object, or as the list of its first values in the order of its fields.
def record? (names : List String) : Json → Option Fields
  | object fields => some fields
  | array items => if items.length ≤ names.length then some (names.zip items) else none
  | _ => none

def format : DataFormat Option Json where
  text := string?
  choice := choice?
  nat := nat?
  int := int?
  list := array?
  table := object?
  record := record?
  refuse := none

end Json

def Config.ofJson? (json : Json) : Option Config := Json.format.config json

def ChartPoint.toJson (point : ChartPoint) : Json :=
  .object [("label", .string point.label), ("value", .int point.value.toInt)]

def StatCard.toJson (card : StatCard) : Json :=
  .object [("label", .string card.label), ("value", .string card.value)]

def PricingTier.toJson (tier : PricingTier) : Json :=
  .object [
    ("name", .string tier.name), ("price", .string tier.price),
    ("features", .strings tier.features)]

def Whitelist.toJson (whitelist : Whitelist) : Json :=
  .object (whitelist.mapValues fun role => .string role.name)

def Placeholders.toJson (p : Placeholders) : Json :=
  .object [
    ("card_title", .string p.cardTitle),
    ("minimal_title", .string p.minimalTitle),
    ("app_title", .string p.appTitle),
    ("body_text", .string p.bodyText),
    ("sidebar_items", .strings p.sidebarItems),
    ("navbar_links", .strings p.navbarLinks),
    ("table_columns", .strings p.tableColumns),
    ("table_rows", .array (p.tableRows.map .strings)),
    ("chart_series", .array (p.chartSeries.map ChartPoint.toJson)),
    ("stat_cards", .array (p.statCards.map StatCard.toJson)),
    ("pricing_tiers", .array (p.pricingTiers.map PricingTier.toJson)),
    ("kanban_lanes", .strings p.kanbanLanes),
    ("gallery_size", .int p.gallerySize.toNat),
    ("gallery_columns", .int p.galleryColumns.toNat),
    ("gap", .int p.gap.toNat),
    ("padding", .int p.padding.toNat)]

def Limits.toJson (limits : Limits) : Json :=
  .object [
    ("max_input_chars", .int limits.maxInputChars),
    ("max_modal_inputs", .int limits.maxModalInputs)]

def Config.toJson (config : Config) : Json :=
  .object [
    ("whitelist", config.whitelist.toJson), ("placeholders", config.placeholders.toJson),
    ("limits", config.limits.toJson)]

end Wireframe
