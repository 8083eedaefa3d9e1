import Wireframe.Proofs.Frame
import Wireframe.Proofs.Regular

namespace Wireframe

open Instruction (Addition Request)

namespace Node

-- The nodes of a reduced tree are the reduced nodes of the tree.
theorem exists_of_mem_walk_without {kinds : List ComponentKind} {tree node : Node}
    (hnode : node ∈ (tree.without kinds).walk) :
    ∃ inner ∈ tree.walk, node = inner.without kinds := by
  induction tree using Node.induct with
  | step tree ih =>
    rcases mem_walk.mp hnode with rfl | ⟨child, hchild, hin⟩
    · exact ⟨tree, tree.mem_walk_self, rfl⟩
    · rw [children_without] at hchild
      obtain ⟨original, hmem, rfl⟩ := List.mem_map.mp hchild
      have horiginal := List.mem_of_mem_filter hmem
      obtain ⟨inner, hinner, rfl⟩ := ih original horiginal hin
      exact ⟨inner, mem_walk_of_child horiginal hinner, rfl⟩

@[simp] theorem markup?_without (kinds : List ComponentKind) (node : Node) :
    (node.without kinds).markup? = node.markup? := by
  cases node with
  | layout id kind spacing children => rfl
  | component c => cases c; rfl

theorem length_children_without_le (kinds : List ComponentKind) (node : Node) :
    (node.without kinds).children.length ≤ node.children.length := by
  rw [children_without, List.length_map]
  exact List.length_filter_le ..

theorem Numbered.without {node : Node} (h : node.Numbered) (kinds : List ComponentKind) :
    (node.without kinds).Numbered := by
  constructor
  · intro child hchild
    rw [children_without] at hchild
    obtain ⟨original, hmem, rfl⟩ := List.mem_map.mp hchild
    simpa using h.numbered original (List.mem_of_mem_filter hmem)
  · have hids : Node.id ∘ Node.without kinds = Node.id := funext fun child => id_without kinds child
    rw [children_without, List.map_map, hids]
    exact h.distinct.sublist (List.filter_sublist.map Node.id)

theorem Regular.without {node : Node} (h : node.Regular) (kinds : List ComponentKind) :
    (node.without kinds).Regular where
  numbered := h.numbered.without kinds
  id := by simpa using h.id
  roomy := by simpa using h.roomy
  clean := by simpa using h.clean

end Node

-- The nodes that a removal leaves, the wrapper being gone or not.
theorem exists_of_mem_walk_removeKinds {prior : Plan} {kinds : List ComponentKind} {node : Node}
    (hnode : node ∈ (removeKinds prior kinds).toNode.walk) :
    ∃ inner ∈ prior.nodes, node = inner.without kinds := by
  suffices hleft : node ∈ (prior.root.toNode.without kinds).walk from
    Node.exists_of_mem_walk_without hleft
  rcases removeKinds_cases prior kinds with ⟨-, hroot⟩ | ⟨-, hchildren⟩
  · rwa [hroot] at hnode
  · have hchild : (removeKinds prior kinds).toNode ∈ (prior.root.without kinds).children := by
      rw [hchildren]
      exact List.mem_singleton_self _
    exact Node.mem_walk_of_child hchild hnode

theorem regular_removeKinds {prior : Plan} (hregular : prior.root.Regular)
    (kinds : List ComponentKind) : (removeKinds prior kinds).Regular := by
  intro node hnode
  obtain ⟨inner, hinner, rfl⟩ := exists_of_mem_walk_removeKinds hnode
  exact (hregular inner hinner).without kinds

theorem length_children_removeKinds_le {prior : Plan} {bound : Nat}
    (hfew : ∀ node ∈ prior.nodes, node.children.length ≤ bound) (kinds : List ComponentKind) :
    (removeKinds prior kinds).children.length ≤ bound := by
  obtain ⟨inner, hinner, heq⟩ :=
    exists_of_mem_walk_removeKinds (removeKinds prior kinds).toNode.mem_walk_self
  have hle := inner.length_children_without_le kinds
  rw [← heq] at hle
  exact Nat.le_trans hle (hfew inner hinner)

-- A component at the end of the root.
def Layout.append (root : Layout) (part : Component) : Layout :=
  { root with children := root.children ++ [.component part] }

theorem Layout.mem_walk_append {root : Layout} {part : Component} {node : Node} :
    node ∈ (root.append part).toNode.walk ↔
      node = (root.append part).toNode ∨ (∃ child ∈ root.children, node ∈ child.walk) ∨
        node ∈ (Node.component part).walk := by
  rw [Node.mem_walk, Layout.toNode, Node.children, Layout.append]
  simp only [List.mem_append, List.mem_singleton, or_and_right, exists_or, exists_eq_left]

-- Below a component there are only components.
theorem Node.role_of_mem_walk {c : Component} {node : Node} (hnode : node ∈ (component c).walk) :
    node.kind.role = .component := by
  induction c using Component.induct with
  | step c ih =>
    rcases mem_walk.mp hnode with rfl | ⟨child, hchild, hin⟩
    · rfl
    · obtain ⟨part, hpart, rfl⟩ := List.mem_map.mp hchild
      exact ih part hpart hin

-- The taken ids, as far as they matter for the children of a root.
structure Layout.Takes (root : Layout) (taken : List String) : Prop where
  children : ∀ child ∈ root.children, child.id ∈ taken
  known : ∀ kind number, nodeId (some root.id) kind number ∈ taken →
    nodeId (some root.id) kind number ∈ root.children.map Node.id

namespace Layout

variable {root : Layout} {taken : List String}

-- At first all ids of a plan are taken.
theorem takes_ids (hnumbered : root.Numbered)
    (modification : Modification) : root.Takes (Plan.ids ⟨modification, root⟩) where
  children := fun child hchild =>
    List.mem_map_of_mem (Node.mem_walk_of_child hchild child.mem_walk_self)
  known := by
    intro kind number htaken
    obtain ⟨node, hnode, hid⟩ := List.mem_map.mp htaken
    obtain ⟨child, hchild, hsame⟩ := Node.exists_child_of_id_eq hnumbered hnode hid
    rw [← hid, ← hsame]
    exact List.mem_map_of_mem hchild

-- The next free id is not the id of a child.
theorem Takes.nextFreeId (htakes : root.Takes taken) (kind : Kind) (index : Nat) :
    ∃ number, nextFreeId root.id kind index taken = nodeId (some root.id) kind number ∧
      nodeId (some root.id) kind number ∉ root.children.map Node.id ∧
      (number < numberBound ∨ number ≤ root.children.length) := by
  obtain ⟨number, hid, hfree, hbound⟩ := nextFreeId_eq index (htakes.known kind)
  rw [List.length_map] at hbound
  refine ⟨number, hid, fun hmem => ?_, hbound⟩
  obtain ⟨child, hchild, hsame⟩ := List.mem_map.mp hmem
  exact hfree (hsame ▸ htakes.children child hchild)

theorem Takes.append (htakes : root.Takes taken) (part : Component) :
    (root.append part).Takes (part.id :: taken) where
  children := by
    intro child hchild
    rcases List.mem_append.mp hchild with hchild | hchild
    · exact List.mem_cons_of_mem _ (htakes.children child hchild)
    · rw [List.mem_singleton.mp hchild]
      exact List.mem_cons_self
  known := by
    intro kind number hmem
    rw [Layout.append, List.map_append, List.mem_append]
    rcases List.mem_cons.mp hmem with hmem | hmem
    · exact .inr (List.mem_singleton.mpr hmem)
    · exact .inl (htakes.known kind number hmem)

theorem numbered_append (hnumbered : root.toNode.Numbered) {part : Component} (number : Nat)
    (hid : part.id = nodeId (some root.id) (.component part.kind) number)
    (hfree : part.id ∉ root.children.map Node.id) : (root.append part).toNode.Numbered where
  numbered := by
    intro child hchild
    rcases List.mem_append.mp hchild with hchild | hchild
    · exact hnumbered.numbered child hchild
    · rw [List.mem_singleton.mp hchild]
      exact ⟨number, hid⟩
  distinct := by
    rw [Layout.append, Layout.toNode, Node.children, List.map_append, List.map_singleton,
      ← List.concat_eq_append]
    exact hnumbered.distinct.concat hfree

-- A part with a number of its own leaves the tree numbered, whatever it brings with it.
theorem Numbered.append (hnumbered : root.Numbered) (draft : ComponentDraft) (number : Nat)
    (hfree : nodeId (some root.id) (.component draft.kind) number ∉ root.children.map Node.id) :
    (root.append (draft.build (nodeId (some root.id) (.component draft.kind) number))).Numbered := by
  intro node hnode
  rcases mem_walk_append.mp hnode with rfl | ⟨child, hchild, hin⟩ | hin
  · apply numbered_append (hnumbered _ root.toNode.mem_walk_self) number
    · rw [draft.id_build, draft.kind_build]
    · rwa [draft.id_build]
  · exact hnumbered node (Node.mem_walk_of_child hchild hin)
  · have hbuilt : node ∈ ((Draft.component draft).build _).walk := hin
    exact Draft.numbered_of_mem_walk_build hbuilt

-- A small part under a new id leaves the tree regular.
theorem Regular.append (hregular : root.Regular) {draft : ComponentDraft} {number : Nat}
    (hfits : (Draft.component draft).Fits 1)
    (hfree : nodeId (some root.id) (.component draft.kind) number ∉ root.children.map Node.id)
    (hnumber : number < 10 ^ 20) :
    (root.append (draft.build (nodeId (some root.id) (.component draft.kind) number))).Regular := by
  let id := nodeId (some root.id) (.component draft.kind) number
  have hroot := hregular root.toNode root.toNode.mem_walk_self
  have hrootId : WellFormedId root.id := hroot.id
  have hroom : root.id.length ≤ 128 := hroot.roomy rfl
  have hlength : id.length ≤ root.id.length + 29 := length_nodeId_le root.id _ hnumber
  have hid : WellFormedId id := wellFormedId_nodeId hrootId _ _ (Nat.le_trans hlength (by omega))
  have hnumbered : (root.append (draft.build id)).Numbered :=
    hregular.numbered.append draft number hfree
  intro node hnode
  rcases mem_walk_append.mp hnode with rfl | ⟨child, hchild, hin⟩ | hin
  · exact ⟨hnumbered _ hnode, hroot.id, hroot.roomy, rfl⟩
  · exact hregular node (Node.mem_walk_of_child hchild hin)
  · have hbuilt : node ∈ ((Draft.component draft).build id).walk := hin
    obtain ⟨hnodeId, hclean, -, -⟩ := hfits.build hid (by omega) node hbuilt
    refine ⟨hnumbered node hnode, hnodeId, fun hrole => ?_, hclean⟩
    rw [Node.role_of_mem_walk hin] at hrole
    cases hrole

theorem Filled.append (hfilled : root.Filled) (part : Component) : (root.append part).Filled := by
  intro node hnode hrole
  rcases mem_walk_append.mp hnode with rfl | ⟨child, hchild, hin⟩ | hin
  · exact List.append_ne_nil_of_right_ne_nil _ (List.cons_ne_nil _ _)
  · exact hfilled node (Node.mem_walk_of_child hchild hin) hrole
  · rw [Node.role_of_mem_walk hin] at hrole
    cases hrole

end Layout

theorem filled_appendAll (p : Placeholders) (additions : List Addition) {root : Layout}
    (hfilled : root.Filled) (taken : List String) :
    (appendAll p root taken additions).Filled := by
  induction additions generalizing root taken with
  | nil => exact hfilled
  | cons addition rest ih => exact ih (hfilled.append _) _

theorem regular_appendAll {p : Placeholders} {additions : List Addition}
    (hfits : ∀ addition ∈ additions, (Draft.component (additionDraft p addition)).Fits 1)
    {root : Layout} {taken : List String} (hregular : root.Regular) (htakes : root.Takes taken)
    (hfew : root.children.length + additions.length ≤ 10 ^ 20) :
    (appendAll p root taken additions).Regular := by
  induction additions generalizing root taken with
  | nil => exact hregular
  | cons addition rest ih =>
    obtain ⟨hfirst, hrest⟩ := List.forall_mem_cons.mp hfits
    obtain ⟨number, hid, hfree, hbound⟩ := htakes.nextFreeId
      (.component (additionDraft p addition).kind) root.children.length
    rw [List.length_cons] at hfew
    have hnumber : number < 10 ^ 20 := by
      simp only [numberBound, UInt64.size] at hbound
      omega
    let id := nodeId (some root.id) (.component (additionDraft p addition).kind) number
    have hpart : ((additionDraft p addition).build id).id = id :=
      (additionDraft p addition).id_build id
    have htakes' := htakes.append ((additionDraft p addition).build id)
    rw [hpart] at htakes'
    rw [appendAll, hid]
    apply ih hrest (hregular.append hfirst hfree hnumber) htakes'
    rw [Layout.append, List.length_append, List.length_singleton]
    omega

theorem regular_edit {prior : Plan} {p : Placeholders} {request : Request}
    (hregular : prior.root.Regular)
    (hfew : ∀ node ∈ prior.nodes, node.children.length ≤ numberBound)
    (hadditions : request.additions.length ≤ numberBound)
    (hfits : ∀ addition ∈ request.additions, (Draft.component (additionDraft p addition)).Fits 1) :
    (prior.edit p request).root.Regular := by
  have hleft := regular_removeKinds hregular request.removals
  have hchildren := length_children_removeKinds_le hfew request.removals
  apply regular_appendAll hfits hleft
  · exact Layout.takes_ids hleft.numbered .edit
  · simp only [numberBound, UInt64.size] at hchildren hadditions
    omega

-- Only a removal can empty a layout.
theorem filled_edit {prior : Plan} (p : Placeholders) {request : Request}
    (hfilled : prior.root.Filled) (hremovals : request.removals = []) :
    (prior.edit p request).root.Filled := by
  apply filled_appendAll
  rwa [hremovals, removeKinds_nil]

end Wireframe
