namespace Wireframe

inductive LayoutKind where
  | column | row | grid
  deriving DecidableEq, Repr

inductive ComponentKind where
  | card | button | input | table | chart | modal | sidebar | navbar | text
  deriving DecidableEq, Repr

-- The place that a kind can take in a tree.
inductive Role where
  | layout | component
  deriving DecidableEq, Repr

inductive Kind where
  | layout (kind : LayoutKind)
  | component (kind : ComponentKind)
  deriving DecidableEq, Repr

namespace LayoutKind

def all : List LayoutKind := [column, row, grid]

def name : LayoutKind → String
  | column => "Column"
  | row => "Row"
  | grid => "Grid"

def ofName? (name : String) : Option LayoutKind := all.find? (·.name == name)

end LayoutKind

namespace ComponentKind

def all : List ComponentKind :=
  [card, button, input, table, chart, modal, sidebar, navbar, text]

def name : ComponentKind → String
  | card => "Card"
  | button => "Button"
  | input => "Input"
  | table => "Table"
  | chart => "Chart"
  | modal => "Modal"
  | sidebar => "Sidebar"
  | navbar => "Navbar"
  | text => "Text"

def ofName? (name : String) : Option ComponentKind := all.find? (·.name == name)

end ComponentKind

namespace Role

def name : Role → String
  | layout => "layout"
  | component => "component"

def ofName? (name : String) : Option Role := [layout, component].find? (·.name == name)

end Role

namespace Kind

def all : List Kind := LayoutKind.all.map layout ++ ComponentKind.all.map component

def name : Kind → String
  | layout kind => kind.name
  | component kind => kind.name

def ofName? (name : String) : Option Kind :=
  ((LayoutKind.ofName? name).map layout).or ((ComponentKind.ofName? name).map component)

def role : Kind → Role
  | layout _ => .layout
  | component _ => .component

-- The name as it stands in node ids, in lower case.
def slug : Kind → String
  | layout .column => "column"
  | layout .row => "row"
  | layout .grid => "grid"
  | component .card => "card"
  | component .button => "button"
  | component .input => "input"
  | component .table => "table"
  | component .chart => "chart"
  | component .modal => "modal"
  | component .sidebar => "sidebar"
  | component .navbar => "navbar"
  | component .text => "text"

end Kind

end Wireframe
