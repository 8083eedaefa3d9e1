import Wireframe.Plan.Whitelist

namespace Wireframe

structure ChartPoint where
  label : String
  value : Int64
  deriving DecidableEq

structure StatCard where
  label : String
  value : String
  deriving DecidableEq

structure PricingTier where
  name : String
  price : String
  features : List String := []
  deriving DecidableEq

structure Placeholders where
  cardTitle : String := "Card"
  minimalTitle : String := "Untitled"
  appTitle : String := "Dashboard"
  bodyText : String := "Content goes here."
  sidebarItems : List String := ["Home", "Analytics", "Reports", "Settings"]
  navbarLinks : List String := ["Overview", "Reports", "Account"]
  tableColumns : List String := ["Name", "Status", "Amount"]
  tableRows : List (List String) :=
    [["Alpha", "Active", "$1,200"], ["Beta", "Pending", "$860"], ["Gamma", "Closed", "$2,430"]]
  chartSeries : List ChartPoint :=
    [⟨"Jan", 120⟩, ⟨"Feb", 180⟩, ⟨"Mar", 150⟩, ⟨"Apr", 210⟩, ⟨"May", 260⟩, ⟨"Jun", 240⟩]
  statCards : List StatCard :=
    [⟨"Revenue", "$48,200"⟩, ⟨"Users", "1,284"⟩, ⟨"Conversion", "3.6%"⟩]
  pricingTiers : List PricingTier := [
    ⟨"Starter", "$9/mo", ["1 project", "Email support"]⟩,
    ⟨"Pro", "$29/mo", ["10 projects", "Priority support"]⟩,
    ⟨"Enterprise", "Contact us", ["Unlimited projects", "Dedicated support"]⟩]
  kanbanLanes : List String := ["To Do", "In Progress", "Done"]
  gallerySize : UInt32 := 6
  galleryColumns : UInt32 := 3
  gap : UInt32 := 16
  padding : UInt32 := 24
  deriving DecidableEq

structure Limits where
  -- the most characters that an instruction may have
  maxInputChars : Nat := 2000
  -- the most inputs that an added dialog gets
  maxModalInputs : Nat := 6
  deriving DecidableEq

structure Config where
  whitelist : Whitelist := .full
  placeholders : Placeholders := {}
  limits : Limits := {}
  deriving DecidableEq

end Wireframe
