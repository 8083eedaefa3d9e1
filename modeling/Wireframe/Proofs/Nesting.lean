import Wireframe.Compiler
import Wireframe.Proofs.Exclusion
import Wireframe.Proofs.Frame
import Wireframe.Proofs.Reading
import Wireframe.Proofs.Rereading
import Wireframe.Proofs.Run

namespace Wireframe

-- A node with at most so many levels of nodes. Its props may use the levels that its children
-- leave.
inductive Node.Writable : Nat → Node → Prop
  | intro {levels : Nat} {node : Node} : node.props.Writable (2 * levels + 1) →
    (∀ child ∈ node.children, Writable levels child) → Writable (levels + 1) node

theorem Spacing.writable_toJson (spacing : Spacing) (depth : Nat) :
    spacing.toJson.Writable (depth + 1) := by
  refine .object spacing.nodup_keys_entries fun entry hentry => ?_
  obtain ⟨prop, -, hprop⟩ := List.mem_filterMap.mp hentry
  obtain ⟨n, -, rfl⟩ := Option.map_eq_some_iff.mp hprop
  have hlt : n.toNat < 2 ^ 32 := n.toNat_lt
  exact .int (by omega) (by omega)

namespace Node

variable {levels : Nat} {node : Node}

theorem Writable.succ (h : node.Writable levels) : node.Writable (levels + 1) := by
  induction h with
  | intro hprops _ ih => exact .intro (hprops.mono (by omega)) ih

theorem Writable.mono {more : Nat} (h : node.Writable levels) (hle : levels ≤ more) :
    node.Writable more := by
  induction hle with
  | refl => exact h
  | step _ ih => exact ih.succ

theorem Writable.toJson (h : node.Writable levels) : node.toJson.Writable (2 * levels) := by
  induction h with
  | @intro levels node hprops hchildren ih =>
    cases node with
    | layout id kind spacing children =>
      have hitems : (Json.array (allToJson children)).Writable (2 * levels + 1) := by
        rw [allToJson_eq]
        exact .array (List.forall_mem_map.mpr ih)
      exact .object Plan.nodup_nodeKeys
        (by simpa using ⟨.string _, .string _, hprops, hitems⟩)
    | component c =>
      obtain ⟨id, kind, props, parts⟩ := c
      cases parts with
      | nil =>
        have hkeys : ["id", "type", "props"].Nodup := by decide
        exact .object hkeys (by simpa using ⟨.string _, .string _, hprops⟩)
      | cons first rest =>
        have hitems : (Json.array (first.toJson :: Component.allToJson rest)).Writable
            (2 * levels + 1) := by
          rw [Component.allToJson_eq, ← List.map_cons]
          exact .array (List.forall_mem_map.mpr fun part hpart =>
            ih (.component part) (List.mem_map_of_mem hpart))
        exact .object Plan.nodup_nodeKeys
          (by simpa using ⟨.string _, .string _, hprops, hitems⟩)

end Node

theorem Layout.writable_child {root child : Layout} {levels : Nat}
    (h : root.toNode.Writable levels) (hchild : child.toNode ∈ root.children) :
    child.toNode.Writable levels := by
  cases h with
  | intro _ hchildren => exact (hchildren _ hchild).succ

namespace Plan

-- The levels that are left for nodes in a text, of which the plan itself takes one.
def maxLevels : Nat := 63

def Writable (plan : Plan) : Prop := plan.root.toNode.Writable maxLevels

theorem Writable.toJson {plan : Plan} (h : plan.Writable) : plan.toJson.Writable Json.maxDepth := by
  have hroot : plan.root.toNode.toJson.Writable (2 * maxLevels) := Node.Writable.toJson h
  have hkeys : planKeys.Nodup := by decide
  exact .object hkeys (by simpa using ⟨.string _, hroot⟩)

theorem forall_of_forall₂ {α β : Type} {r : α → β → Prop} {P : β → Prop} {items : List α}
    {others : List β} (hitems : ∀ item ∈ items, ∀ other, r item other → P other)
    (h : List.Forall₂ r items others) : ∀ other ∈ others, P other := by
  induction h with
  | nil => exact nofun
  | cons hfirst _ ih =>
    obtain ⟨hitem, hrest⟩ := List.forall_mem_cons.mp hitems
    exact List.forall_mem_cons.mpr ⟨hitem _ hfirst, ih hrest⟩

theorem writable_of_denotes {levels : Nat} {json : Json} {node : Node}
    (hjson : json.Writable (2 * levels)) (h : Denotes json node) : node.Writable levels := by
  induction json using Json.induct generalizing levels node with
  | other json hother =>
    cases h <;> cases hother
  | object fields ih =>
    -- an object takes a level of its own, so that there is a level of nodes
    obtain ⟨levels, rfl⟩ : ∃ below, levels = below + 1 := by
      have hdepth := hjson.depth_le
      rw [Json.depth] at hdepth
      exact ⟨levels - 1, by omega⟩
    have hvalues : ∀ entry ∈ fields, entry.2.Writable (2 * levels + 1) := hjson.fields
    have hprops {props : Fields} (h : HasProps fields props) :
        (Json.object props).Writable (2 * levels + 1) := by
      cases h with
      | unset => exact .object .nil (List.forall_mem_nil _)
      | given hgiven => exact hvalues _ (Ledger.mem_of_get? hgiven)
    have hitems {items : List Json} (hparts : HasParts fields items) :
        ∀ item ∈ items, ∀ child, Denotes item child → child.Writable levels := by
      intro item hitem child hdenotes
      cases hparts with
      | unset => cases hitem
      | given hgiven =>
        have hentry := Ledger.mem_of_get? hgiven
        exact ih _ _ hentry item hitem ((hvalues _ hentry).items item hitem) hdenotes
    cases h with
    | layout _ _ _ hgiven hdenotes =>
      exact .intro (Spacing.writable_toJson _ _)
        (forall_of_forall₂ (hitems (.given hgiven)) hdenotes)
    | component _ hgiven _ hparts hdenotes =>
      refine .intro (hprops hgiven) (List.forall_mem_map.mpr ?_)
      exact forall_of_forall₂ (P := fun part => (Node.component part).Writable levels)
        (fun item hitem part => hitems hparts item hitem (.component part)) hdenotes

theorem writable_of_parse {text : String} {plan : Plan} (h : parse text = .ok plan) :
    plan.Writable := by
  rw [parse] at h
  split at h
  · next json hparse =>
    have hjson := Json.readable_writable.of_parse? hparse
    cases (ofJson_eq_ok_iff_denotes (Json.distinct_of_parse? hparse)).mp h with
    | intro _ _ hroot hdenotes =>
      exact writable_of_denotes (hjson.fields _ (Ledger.mem_of_get? hroot)) hdenotes
  · cases h

end Plan

namespace Template

open Draft

variable {p : Placeholders} {may : Instruction.Concept → Prop}

theorem writable_chartSeries (p : Placeholders) :
    (Json.array (p.chartSeries.map ChartPoint.toJson)).Writable 2 := by
  refine .array (List.forall_mem_map.mpr fun point _ => ?_)
  have hlow := point.value.le_toInt
  have hhigh := point.value.toInt_lt
  have hvalue : (Json.int point.value.toInt).Writable 0 := .int hlow (by omega)
  exact .object (by simp [Ledger.keys]) (by simpa using ⟨.string _, hvalue⟩)

theorem Piece.writable {base : ComponentDraft} (hbase : Piece p may base) :
    (Json.object base.props).Writable 3 := by
  have hrows : (Json.array (p.tableRows.map .strings)).Writable 2 :=
    .array (List.forall_mem_map.mpr fun row _ => .strings row)
  cases hbase with
  | card =>
    exact .object (by simp [Ledger.keys, Template.card])
      (by simpa [Template.card] using .string _)
  | subtitledCard =>
    exact .object (by simp [Ledger.keys, Template.subtitledCard])
      (by simpa [Template.subtitledCard] using ⟨.string _, .string _⟩)
  | text =>
    exact .object (by simp [Ledger.keys, Template.text])
      (by simpa [Template.text] using .string _)
  | button =>
    exact .object (by simp [Ledger.keys, Template.button])
      (by simpa [Template.button] using ⟨.string _, .string _⟩)
  | input =>
    exact .object (by simp [Ledger.keys, Template.input])
      (by simpa [Template.input] using ⟨.string _, .string _, .string _⟩)
  | modal =>
    exact .object (by simp [Ledger.keys, Template.modal])
      (by simpa [Template.modal] using ⟨.string _, .bool _⟩)
  | sidebar =>
    exact .object (by simp [Ledger.keys, Template.sidebar])
      (by simpa [Template.sidebar] using .strings _)
  | navbar =>
    exact .object (by simp [Ledger.keys, Template.navbar])
      (by simpa [Template.navbar] using ⟨.string _, .strings _⟩)
  | chart =>
    exact .object (by simp [Ledger.keys, Template.chart])
      (by simpa [Template.chart] using ⟨.string _, .string _, writable_chartSeries p⟩)
  | table =>
    exact .object (by simp [Ledger.keys, Template.table])
      (by simpa [Template.table] using ⟨.strings _, hrows⟩)

end Template

theorem Draft.writable_children_build {draft : Draft} {levels : Nat} {id : String}
    (hchildren : ∀ child ∈ draft.children, ∀ id, (child.build id).Writable levels) :
    ∀ child ∈ (draft.build id).children, child.Writable levels := by
  intro child hchild
  rw [children_build] at hchild
  obtain ⟨place, hplace, rfl⟩ := List.mem_map.mp hchild
  exact hchildren place.1 (List.fst_mem_of_mem_zipIdx hplace) _

-- The props of pieces need a level of nodes more than the tree.
theorem Draft.MadeOf.writable {p : Placeholders} {may : Instruction.Concept → Prop} {depth : Nat}
    {draft : Draft} (h : draft.MadeOf (Template.Piece p may) depth) (id : String) :
    (draft.build id).Writable (depth + 1) := by
  induction h generalizing id with
  | layout _ ih => exact .intro (Spacing.writable_toJson _ _) (writable_children_build ih)
  | @component depth draft base hpiece _ hprops _ ih =>
    refine .intro ?_ (writable_children_build (List.forall_mem_map.mpr ih))
    obtain ⟨kind, props, children⟩ := draft
    obtain rfl : props = base.props := hprops
    exact hpiece.writable.mono (by omega)

theorem Template.madeOf_additionDraft (p : Placeholders) (addition : Instruction.Addition) :
    (Draft.component (additionDraft p addition)).MadeOf (Piece p fun _ => True) 2 := by
  cases addition with
  | modal title inputs =>
    exact (Piece.modal title trivial).madeOf_append_pieces
      (List.forall_mem_map.mpr fun field _ => .input field)
  | chart => exact madeOf_chartCard trivial
  | table => exact madeOf_tableCard trivial

theorem Node.Writable.without {levels : Nat} {node : Node} (h : node.Writable levels)
    (kinds : List ComponentKind) : (node.without kinds).Writable levels := by
  induction h with
  | intro hprops _ ih =>
    refine .intro (by rwa [Node.props_without]) fun child hchild => ?_
    rw [Node.children_without] at hchild
    obtain ⟨original, horiginal, rfl⟩ := List.mem_map.mp hchild
    exact ih original (List.mem_of_mem_filter horiginal)

theorem Plan.writable_removeKinds {prior : Plan} (h : prior.Writable)
    (kinds : List ComponentKind) : (removeKinds prior kinds).toNode.Writable maxLevels := by
  have hstripped : (prior.root.without kinds).toNode.Writable maxLevels :=
    Node.Writable.without h kinds
  rcases removeKinds_cases prior kinds with ⟨-, hkept⟩ | ⟨-, hwrapped⟩
  · rwa [hkept]
  · -- the child has one level less
    exact Layout.writable_child hstripped (hwrapped ▸ List.mem_cons_self)

theorem Plan.Writable.edit {prior : Plan} (h : prior.Writable) (p : Placeholders)
    (request : Instruction.Request) : (prior.edit p request).Writable := by
  have hroot := writable_removeKinds h request.removals
  obtain ⟨parts, hbuilt, hedit⟩ := appendAll_eq p request.additions
    (removeKinds prior request.removals) (Plan.ids ⟨.edit, removeKinds prior request.removals⟩)
  have hparts : ∀ part ∈ parts, (Node.component part).Writable 3 := by
    refine forall_of_forall₂ (fun addition _ part => ?_) hbuilt
    rintro ⟨number, rfl⟩
    exact (Template.madeOf_additionDraft p addition).writable _
  rw [Plan.Writable, Plan.edit, hedit]
  cases hroot with
  | intro hprops hchildren =>
    refine .intro hprops (List.forall_mem_append.mpr ⟨hchildren, List.forall_mem_map.mpr ?_⟩)
    exact fun part hpart => (hparts part hpart).mono (by decide)

theorem writable_of_compile {config : Config} {previous : Option Plan} {text : String} {plan : Plan}
    (hprevious : ∀ prior ∈ previous, prior.Writable) (h : compile config previous text = .ok plan) :
    plan.Writable := by
  obtain ⟨cleaned, -, h⟩ := bind_eq_ok_iff.mp h
  obtain ⟨made, hmade, hvalid⟩ := bind_eq_ok_iff.mp h
  obtain rfl := Plan.eq_of_validate_eq_ok hvalid
  rcases classify_cases config previous.isSome cleaned with
    ⟨hsome, hclass⟩ | ⟨modification, -, hclass⟩
  · obtain ⟨prior, rfl⟩ := Option.isSome_iff_exists.mp hsome
    rw [hclass] at hmade
    cases hmade
    exact (hprevious prior rfl).edit _ _
  · obtain ⟨draft, hdraft, hdrawn⟩ := Template.exists_draft_madeOf config.placeholders cleaned
    have hroot : Template.synthesize config.placeholders
        (Instruction.freshIntent config.placeholders cleaned) =
          .ok (Template.spaced config.placeholders draft).build := by
      rw [Template.synthesize, hdraft]
      rfl
    rw [hclass, realize_freshIntent previous hroot] at hmade
    cases hmade
    exact ((Template.madeOf_spaced hdrawn _).writable _).mono (by decide)

end Wireframe
