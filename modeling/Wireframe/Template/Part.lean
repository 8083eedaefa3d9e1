import Wireframe.Config.Json
import Wireframe.Instruction.Field
import Wireframe.Plan.Draft

namespace Wireframe.Template

open Instruction (Field)

def column (children : List Draft) : LayoutDraft := { kind := .column, children }

def row (children : List Draft) : LayoutDraft := { kind := .row, children }

def grid (columns : UInt32) (children : List Draft) : LayoutDraft :=
  { kind := .grid, children, spacing := { columns := some columns } }

-- Components as children of a layout.
def components (drafts : List ComponentDraft) : List Draft := drafts.map .component

def card (title : String) : ComponentDraft := { kind := .card, props := [("title", .string title)] }

-- A card with a second line under the title.
def subtitledCard (title subtitle : String) : ComponentDraft :=
  { kind := .card, props := [("title", .string title), ("subtitle", .string subtitle)] }

def text (content : String) : ComponentDraft :=
  { kind := .text, props := [("content", .string content)] }

def button (label variant : String) : ComponentDraft :=
  { kind := .button, props := [("label", .string label), ("variant", .string variant)] }

def input (field : Field) : ComponentDraft :=
  { kind := .input
    props := [
      ("label", .string field.label), ("type", .string field.inputType),
      ("placeholder", .string field.placeholder)] }

def modal (title : String) : ComponentDraft :=
  { kind := .modal, props := [("title", .string title), ("open", .bool false)] }

def sidebar (p : Placeholders) : ComponentDraft :=
  { kind := .sidebar, props := [("items", .strings p.sidebarItems)] }

def navbar (p : Placeholders) : ComponentDraft :=
  { kind := .navbar, props := [("title", .string p.appTitle), ("links", .strings p.navbarLinks)] }

def chart (title : String) (p : Placeholders) : ComponentDraft :=
  { kind := .chart
    props := [
      ("chartType", .string "line"), ("title", .string title),
      ("data", .array (p.chartSeries.map ChartPoint.toJson))] }

def table (p : Placeholders) : ComponentDraft :=
  { kind := .table
    props := [
      ("columns", .strings p.tableColumns), ("rows", .array (p.tableRows.map .strings))] }

def chartCard (p : Placeholders) : ComponentDraft := (card "Analytics").append [chart "Trend" p]

def tableCard (p : Placeholders) : ComponentDraft := (card "Records").append [table p]

def textCard (p : Placeholders) : ComponentDraft := (card p.cardTitle).append [text p.bodyText]

end Wireframe.Template
