import Wireframe.Proofs.Frame

namespace Wireframe

mutual

-- The tree without its ids.
def Component.draft : Component → ComponentDraft
  | ⟨_, kind, props, children⟩ => ⟨kind, props, Component.drafts children⟩

def Component.drafts : List Component → List ComponentDraft
  | [] => []
  | c :: rest => c.draft :: Component.drafts rest

end

mutual

def Node.draft : Node → Draft
  | .layout _ kind spacing children => .layout kind spacing (Node.drafts children)
  | .component c => .component c.draft

def Node.drafts : List Node → List Draft
  | [] => []
  | node :: rest => node.draft :: Node.drafts rest

end

def Layout.draft (root : Layout) : LayoutDraft :=
  { kind := root.kind, children := Node.drafts root.children, spacing := root.spacing }

theorem Component.drafts_eq (parts : List Component) :
    Component.drafts parts = parts.map Component.draft := by
  induction parts with
  | nil => rfl
  | cons c rest ih => rw [Component.drafts, ih, List.map_cons]

namespace Node

theorem drafts_eq (nodes : List Node) : drafts nodes = nodes.map draft := by
  induction nodes with
  | nil => rfl
  | cons node rest ih => rw [drafts, ih, List.map_cons]

@[simp] theorem kind_draft (node : Node) : node.draft.kind = node.kind := by
  cases node with
  | layout id kind spacing children => rfl
  | component c => cases c; rfl

theorem children_draft (node : Node) : node.draft.children = node.children.map draft := by
  cases node with
  | layout id kind spacing children => exact drafts_eq children
  | component c =>
    obtain ⟨id, kind, props, parts⟩ := c
    rw [draft, Component.draft, Draft.children, Node.children, Component.drafts_eq, List.map_map,
      List.map_map]
    rfl

@[simp] theorem bare_build_draft (node : Node) : (node.draft.build node.id).bare = node.bare := by
  cases node with
  | layout id kind spacing children => rfl
  | component c => cases c; rfl

end Node

mutual

-- Building keeps kinds, props and the order of children.
theorem ComponentDraft.draft_build (id : String) :
    ∀ draft : ComponentDraft, (draft.build id).draft = draft
  | ⟨kind, props, children⟩ => by
    rw [ComponentDraft.build, Component.draft, ComponentDraft.drafts_buildAll id 0 children]

theorem ComponentDraft.drafts_buildAll (parent : String) (index : Nat) :
    ∀ drafts, Component.drafts (ComponentDraft.buildAll parent index drafts) = drafts
  | [] => rfl
  | draft :: rest => by
    rw [ComponentDraft.buildAll, Component.drafts, ComponentDraft.draft_build _ draft,
      ComponentDraft.drafts_buildAll parent (index + 1) rest]

end

mutual

theorem Draft.draft_build (id : String) : ∀ draft : Draft, (draft.build id).draft = draft
  | .layout kind spacing children => by
    rw [Draft.build, Node.draft, Draft.drafts_buildAll id 0 children]
  | .component draft => by rw [Draft.build, Node.draft, draft.draft_build id]

theorem Draft.drafts_buildAll (parent : String) (index : Nat) :
    ∀ drafts, Node.drafts (Draft.buildAll parent index drafts) = drafts
  | [] => rfl
  | draft :: rest => by
    rw [Draft.buildAll, Node.drafts, Draft.draft_build _ draft,
      Draft.drafts_buildAll parent (index + 1) rest]

end

namespace Node

-- The children have the ids that their places below the node give them.
def Placed (node : Node) : Prop :=
  ∀ place child, node.children[place]? = some child →
    child.id = nodeId (some node.id) child.kind place

theorem placed_build (id : String) (draft : Draft) : (draft.build id).Placed := by
  intro place child hchild
  rw [Draft.children_build, List.getElem?_map, List.getElem?_zipIdx, Option.map_map,
    Option.map_eq_some_iff] at hchild
  obtain ⟨part, -, rfl⟩ := hchild
  simp [Draft.buildNth]

-- Ids that tell the places can be left out and put back.
theorem build_draft {node : Node} (hplaced : ∀ inner ∈ node.walk, inner.Placed) :
    node.draft.build node.id = node := by
  induction node using Node.induct with
  | step node ih =>
    obtain ⟨hnode, hbelow⟩ := node.forall_mem_walk.mp hplaced
    apply eq_of_bare_eq (bare_build_draft node)
    rw [Draft.children_build, children_draft]
    apply List.ext_getElem?
    intro place
    rw [List.getElem?_map, List.getElem?_zipIdx, List.getElem?_map]
    cases hchild : node.children[place]? with
    | none => rfl
    | some child =>
      have hmem : child ∈ node.children := List.mem_of_getElem? hchild
      have hid := hnode place child hchild
      simp only [Option.map_some, Nat.zero_add, Draft.buildNth, kind_draft, ← hid]
      rw [ih child hmem (hbelow child hmem)]

-- Below a short id everything is well-formed that is short itself.
theorem wellFormedId_of_mem_walk {node inner : Node} (hall : ∀ inner ∈ node.walk, inner.Numbered)
    (hnode : node.id.length ≤ 256 → WellFormedId node.id) (hinner : inner ∈ node.walk)
    (hshort : inner.id.length ≤ 256) : WellFormedId inner.id := by
  induction node using Node.induct with
  | step node ih =>
    obtain ⟨hnumbered, hbelow⟩ := node.forall_mem_walk.mp hall
    rcases mem_walk.mp hinner with rfl | ⟨child, hchild, hin⟩
    · exact hnode hshort
    · refine ih child hchild (hbelow child hchild) (fun hchildShort => ?_) hin
      obtain ⟨index, hid⟩ := hnumbered.numbered child hchild
      rw [hid] at hchildShort ⊢
      have hlonger := length_lt_nodeId node.id child.kind index
      exact wellFormedId_nodeId (hnode (by omega)) child.kind index hchildShort

end Node

namespace LayoutDraft

theorem toDraft_injective {a b : LayoutDraft} (h : a.toDraft = b.toDraft) : a = b := by
  obtain ⟨kind, children, spacing⟩ := a
  obtain ⟨kind', children', spacing'⟩ := b
  obtain ⟨rfl, rfl, rfl⟩ := Draft.layout.inj h
  rfl

-- What is built from a draft is the one tree of its shape in which all ids tell places, from the root
-- down. The ids are different, and they are valid unless they are too long.
theorem eq_build_iff_placed (draft : LayoutDraft) :
    (∀ root : Layout, root = draft.build ↔
      root.draft = draft ∧ root.id = nodeId none (.layout draft.kind) 0 ∧
        ∀ node ∈ root.toNode.walk, node.Placed) ∧
    (draft.build.toNode.walk.map Node.id).Nodup ∧
    ∀ node ∈ draft.build.toNode.walk, isValidId node.id = true ↔ node.id.length ≤ 256 := by
  have hnumbered : draft.build.Numbered := draft.numbered_build
  refine ⟨fun root => ⟨?_, ?_⟩, Node.nodup_ids hnumbered, fun node hnode => ?_⟩
  · rintro rfl
    refine ⟨toDraft_injective (Draft.draft_build _ draft.toDraft), rfl, ?_⟩
    rw [toNode_build]
    intro node hnode
    obtain ⟨innerId, inner, rfl⟩ := Draft.exists_build_of_mem_walk hnode
    exact Node.placed_build innerId inner
  · rintro ⟨rfl, hid, hplaced⟩
    apply Layout.toNode_injective
    have hroot : root.toNode.draft.build root.id = root.toNode := Node.build_draft hplaced
    rw [← hroot, hid]
    rfl
  · rw [isValidId_iff]
    refine ⟨fun hvalid => hvalid.short, ?_⟩
    exact Node.wellFormedId_of_mem_walk hnumbered (fun _ => wellFormedId_root _) hnode

end LayoutDraft

end Wireframe
