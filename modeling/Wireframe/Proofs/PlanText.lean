import Wireframe.Proofs.JsonText
import Wireframe.Proofs.RoundTrip

namespace Wireframe

namespace Spacing

theorem nodup_keys_entries (spacing : Spacing) : (Ledger.keys spacing.entries).Nodup := by
  rw [Ledger.keys, entries, List.map_filterMap]
  refine List.Nodup.filterMap ?_ (by decide)
  intro a b key ha hb
  simp only [Option.map_map, Option.mem_def, Option.map_eq_some_iff] at ha hb
  obtain ⟨_, -, rfl⟩ := ha
  obtain ⟨_, -, hname : b.name = a.name⟩ := hb
  exact (SpacingProp.name_injective hname).symm

end Spacing

theorem Plan.nodup_nodeKeys : Plan.nodeKeys.Nodup := by decide

theorem Component.allToJson_eq (parts : List Component) :
    Component.allToJson parts = parts.map Component.toJson := by
  induction parts with
  | nil => rfl
  | cons c rest ih => rw [Component.allToJson, ih, List.map_cons]

theorem Node.allToJson_eq (nodes : List Node) : Node.allToJson nodes = nodes.map Node.toJson := by
  induction nodes with
  | nil => rfl
  | cons node rest ih => rw [Node.allToJson, ih, List.map_cons]

-- A property of texts and words that passes from the parts of a value to the value, as long as each
-- object has each key once.
structure Json.Inherited (P : Json → Prop) : Prop where
  string (s : String) : P (.string s)
  word (n : UInt32) : P (.int n.toNat)
  array {items : List Json} : (∀ item ∈ items, P item) → P (.array items)
  object {fields : Fields} : (Ledger.keys fields).Nodup → (∀ entry ∈ fields, P entry.2) →
    P (.object fields)

namespace Json.Inherited

variable {P : Json → Prop} (hP : Inherited P)

include hP

theorem spacing (spacing : Spacing) : P spacing.toJson := by
  refine hP.object spacing.nodup_keys_entries fun entry hentry => ?_
  obtain ⟨prop, -, hprop⟩ := List.mem_filterMap.mp hentry
  obtain ⟨n, -, rfl⟩ := Option.map_eq_some_iff.mp hprop
  exact hP.word n

theorem component {c : Component} (hprops : P (.object c.props))
    (hchildren : ∀ child ∈ c.children, P child.toJson) : P c.toJson := by
  obtain ⟨id, kind, props, children⟩ := c
  cases children with
  | nil =>
    have hkeys : ["id", "type", "props"].Nodup := by decide
    exact hP.object hkeys (by simpa using ⟨hP.string _, hP.string _, hprops⟩)
  | cons first rest =>
    have hitems : P (.array (first.toJson :: Component.allToJson rest)) := by
      rw [Component.allToJson_eq, ← List.map_cons]
      exact hP.array (List.forall_mem_map.mpr hchildren)
    exact hP.object Plan.nodup_nodeKeys
      (by simpa using ⟨hP.string _, hP.string _, hprops, hitems⟩)

theorem node {node : Node} (hprops : ∀ inner ∈ node.walk, P inner.props) : P node.toJson := by
  induction node using Node.induct with
  | step node ih =>
    obtain ⟨hnode, hbelow⟩ := node.forall_mem_walk.mp hprops
    have hchildren : ∀ child ∈ node.children, P child.toJson := fun child hchild =>
      ih child hchild (hbelow child hchild)
    cases node with
    | component c =>
      exact hP.component hnode fun child hchild =>
        hchildren (.component child) (List.mem_map_of_mem hchild)
    | layout id kind spacing children =>
      have hitems : P (.array (Node.allToJson children)) := by
        rw [Node.allToJson_eq]
        exact hP.array (List.forall_mem_map.mpr hchildren)
      exact hP.object Plan.nodup_nodeKeys
        (by simpa using ⟨hP.string _, hP.string _, hnode, hitems⟩)

-- The props of layouts have it in any case.
theorem plan {plan : Plan}
    (hprops : ∀ c, Node.component c ∈ plan.nodes → P (.object c.props)) : P plan.toJson := by
  have hroot : P plan.root.toNode.toJson := by
    apply hP.node
    intro node hnode
    cases node with
    | layout id kind spacing children => exact hP.spacing spacing
    | component c => exact hprops c hnode
  have hkeys : Plan.planKeys.Nodup := by decide
  exact hP.object hkeys (by simpa using ⟨hP.string _, hroot⟩)

end Json.Inherited

theorem Json.inherited_plain : Json.Inherited Json.Plain where
  string := .string
  word n := by
    have hlt : n.toNat < 2 ^ 32 := n.toNat_lt
    exact .int (by omega) (by omega)
  array := .array
  object := .object

namespace Plan

-- The keys of objects come back in their order, since equal plans have the same lists of entries.
theorem parse_pretty {plan : Plan} (hclean : ∀ node ∈ plan.nodes, ¬ node.HasForbiddenKey)
    (hprops : ∀ c, Node.component c ∈ plan.nodes → (Json.object c.props).Plain)
    (hdepth : plan.toJson.depth ≤ 127) : parse plan.toJson.pretty = .ok plan := by
  have hread := Json.parse?_print Json.Style.blank_pretty (Json.inherited_plain.plan hprops) hdepth
  rw [parse, Json.pretty, hread]
  exact ofJson_toJson_of_clean hclean

-- Texts that need escapes, numbers at both ends of their range, and empty values of each sort.
def awkwardProps : Fields :=
  [("title", .string "\"A\\B\"\n\x01 \u00e9 😀"), ("low", .int (-9223372036854775808)),
    ("high", .int 18446744073709551615),
    ("nested", .array [.null, .bool true, .object [("z", .object []), ("a", .array [])]])]

def awkward : Plan :=
  ⟨.create, ⟨"page", .grid, { gap := some 16, columns := some 2 },
    [.layout "page.row-0" .row {} [],
      .component ⟨"page.card-1", .card, awkwardProps, [⟨"page.card-1.text-0", .text, [], []⟩]⟩]⟩⟩

theorem plain_awkwardProps : (Json.object awkwardProps).Plain := by
  have hinner : (Json.object [("z", .object []), ("a", .array [])]).Plain :=
    .object (by decide) (by simpa using ⟨.object .nil (by simp), .array (by simp)⟩)
  have hnested :
      (Json.array [.null, .bool true, .object [("z", .object []), ("a", .array [])]]).Plain :=
    .array (by simpa using ⟨.null, .bool true, hinner⟩)
  have hlow : (Json.int (-9223372036854775808)).Plain := .int (by decide) (by decide)
  have hhigh : (Json.int 18446744073709551615).Plain := .int (by decide) (by decide)
  exact .object (by decide) (by simpa [awkwardProps] using ⟨.string _, hlow, hhigh, hnested⟩)

theorem parse_pretty_awkward : parse awkward.toJson.pretty = .ok awkward := by
  apply parse_pretty
  · have hnone : awkward.nodes.findSome? Node.markup? = none := rfl
    exact fun node hnode =>
      Node.not_hasForbiddenKey_iff.mpr (List.findSome?_eq_none_iff.mp hnone node hnode)
  · have hplain : ∀ node ∈ awkward.nodes, node.props.Plain := by
      simp only [nodes, awkward, Layout.toNode, Node.walk, Node.walkAll, Component.walk,
        Component.walkAll, List.append_nil, List.cons_append, List.nil_append, List.forall_mem_cons]
      exact ⟨Json.inherited_plain.spacing _, Json.inherited_plain.spacing _, plain_awkwardProps,
        .object .nil (by simp), by simp⟩
    exact fun c hc => hplain (.component c) hc
  · decide

end Plan

end Wireframe
