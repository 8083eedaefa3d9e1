import Wireframe.Config.Basic

namespace Wireframe

inductive ConfigProblem where
  | unknownKind (name : String)
  | wrongRole (name : String) (proper given : Role)
  | noLayoutKind
  | noTableColumns
  | rowLength (index length expected : Nat)
  | noChartSeries
  | noSidebarItems
  | noKanbanLanes
  | noCardsOrTiers
  | noGallery
  | noInputLength
  | noModalInputs
  deriving DecidableEq, Repr

namespace ConfigProblem

def text : ConfigProblem → String
  | unknownKind name => "whitelist entry '" ++ name ++ "' is not a known kind"
  | wrongRole name proper given =>
    "whitelist entry '" ++ name ++ "' is a " ++ proper.name ++ " kind, not " ++ given.name
  | noLayoutKind => "whitelist must permit at least one layout kind"
  | noTableColumns => "placeholders.table_columns must not be empty"
  | rowLength index length expected =>
    "placeholders.table_rows[" ++ toString index ++ "] has " ++ toString length ++
      " cells, expected " ++ toString expected
  | noChartSeries => "placeholders.chart_series must not be empty"
  | noSidebarItems => "placeholders.sidebar_items must not be empty"
  | noKanbanLanes => "placeholders.kanban_lanes must not be empty"
  | noCardsOrTiers => "placeholders.stat_cards and pricing_tiers must not be empty"
  | noGallery => "placeholders.gallery_size and gallery_columns must be positive"
  | noInputLength => "limits.max_input_chars must be positive"
  | noModalInputs => "limits.max_modal_inputs must be positive"

-- The problem, if the condition holds.
def found (condition : Bool) (problem : ConfigProblem) : List ConfigProblem :=
  if condition then [problem] else []

end ConfigProblem

open ConfigProblem

def Whitelist.entryProblems (entry : String × Role) : List ConfigProblem :=
  match Kind.ofName? entry.1 with
  | none => [unknownKind entry.1]
  | some kind => found (kind.role != entry.2) (wrongRole entry.1 kind.role entry.2)

def Whitelist.problems (whitelist : Whitelist) : List ConfigProblem :=
  whitelist.flatMap entryProblems ++
    found (!whitelist.values.contains .layout) noLayoutKind

-- The rows whose length is not that of the heading.
def Placeholders.rowProblems (p : Placeholders) : List ConfigProblem :=
  p.tableRows.zipIdx.flatMap fun (row, index) =>
    found (row.length != p.tableColumns.length)
      (rowLength index row.length p.tableColumns.length)

def Placeholders.problems (p : Placeholders) : List ConfigProblem :=
  found p.tableColumns.isEmpty noTableColumns ++
    p.rowProblems ++
    found p.chartSeries.isEmpty noChartSeries ++
    found p.sidebarItems.isEmpty noSidebarItems ++
    found p.kanbanLanes.isEmpty noKanbanLanes ++
    found (p.statCards.isEmpty || p.pricingTiers.isEmpty) noCardsOrTiers ++
    found (p.gallerySize == 0 || p.galleryColumns == 0) noGallery

def Limits.problems (limits : Limits) : List ConfigProblem :=
  found (limits.maxInputChars == 0) noInputLength ++
    found (limits.maxModalInputs == 0) noModalInputs

def Config.problems (config : Config) : List ConfigProblem :=
  config.whitelist.problems ++ config.placeholders.problems ++ config.limits.problems

end Wireframe
