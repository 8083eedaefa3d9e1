import Wireframe.Proofs.Frame

namespace Wireframe

open Instruction (Addition Field Request)

namespace Plan

-- The nodes that an edit keeps.
def kept (prior : Plan) (request : Request) : List Node :=
  (removeKinds prior request.removals).toNode.walk

-- The parts that an edit appends to the root.
def added (prior : Plan) (p : Placeholders) (request : Request) : List Node :=
  (prior.edit p request).root.children.drop (removeKinds prior request.removals).children.length

-- A node that is kept has the id of a node inside a part that is added. Only the id of the part
-- itself is one that no node has; what is inside is numbered below it without a look at the plan.
def Clashes (prior : Plan) (p : Placeholders) (request : Request) : Prop :=
  ∃ node ∈ prior.kept request, ∃ part ∈ prior.added p request,
    ∃ inner ∈ part.children.flatMap Node.walk, node.id = inner.id

end Plan

theorem Node.ids_without_sublist (kinds : List ComponentKind) (node : Node) :
    ((node.without kinds).walk.map Node.id).Sublist (node.walk.map Node.id) := by
  induction node using Node.induct with
  | step node ih =>
    rw [walk_eq, walk_eq node, List.map_cons, List.map_cons, id_without, children_without,
      List.map_flatMap, List.map_flatMap, List.flatMap_map]
    apply List.Sublist.cons_cons
    have hsub : (node.children.filter fun child => !child.isOneOf kinds).Sublist node.children :=
      List.filter_sublist
    refine .trans (List.Sublist.flatMap_right _ fun child hchild => ?_) (hsub.flatMap _)
    exact ih child (hsub.subset hchild)

namespace Layout

variable {p : Placeholders} {root : Layout} {additions : List Addition} {parts : List Component}

theorem Appends.exists_of_mem (hbuilt : List.Forall₂ (Appends p root) additions parts)
    {part : Component} (hpart : part ∈ parts) :
    ∃ addition ∈ additions, Appends p root addition part := by
  induction hbuilt with
  | nil => cases hpart
  | cons hfirst _ ih =>
    rcases List.mem_cons.mp hpart with rfl | hmem
    · exact ⟨_, List.mem_cons_self, hfirst⟩
    · obtain ⟨addition, haddition, happends⟩ := ih hmem
      exact ⟨addition, List.mem_cons_of_mem _ haddition, happends⟩

-- Parts that are told apart by their own ids have nothing in common below them either.
theorem nodup_ids_of_appends (hbuilt : List.Forall₂ (Appends p root) additions parts)
    (hdistinct : (parts.map Component.id).Nodup) :
    ((parts.flatMap Component.walk).map Node.id).Nodup := by
  -- a root that has these parts and nothing else is numbered
  let stand : Layout := { root with children := parts.map .component }
  have hstand : ∀ node ∈ stand.toNode.walk, node.Numbered := by
    rw [Node.forall_mem_walk]
    refine ⟨⟨?_, ?_⟩, ?_⟩
    · intro child hchild
      obtain ⟨part, hpart, rfl⟩ := List.mem_map.mp hchild
      obtain ⟨addition, -, number, rfl⟩ := Appends.exists_of_mem hbuilt hpart
      refine ⟨number, ?_⟩
      rw [Node.id, Node.kind, ComponentDraft.id_build, ComponentDraft.kind_build]
      rfl
    · exact (List.map_map ..).symm ▸ hdistinct
    · intro child hchild node hnode
      obtain ⟨part, hpart, rfl⟩ := List.mem_map.mp hchild
      obtain ⟨addition, -, number, rfl⟩ := Appends.exists_of_mem hbuilt hpart
      have hwalk : node ∈ ((Draft.component (additionDraft p addition)).build _).walk := hnode
      exact Draft.numbered_of_mem_walk_build hwalk
  have hnodup := Node.nodup_ids hstand
  rw [Node.walk_eq, List.map_cons, List.nodup_cons] at hnodup
  have hbelow : stand.toNode.children.flatMap Node.walk = parts.flatMap Component.walk :=
    List.flatMap_map ..
  rw [← hbelow]
  exact hnodup.2

end Layout

namespace Plan

-- An edit appends a part for each addition, under an id that no node has that is kept.
theorem exists_added_eq (prior : Plan) (p : Placeholders) (request : Request) :
    ∃ parts : List Component, prior.added p request = parts.map .component ∧
      List.Forall₂ (Layout.Appends p (removeKinds prior request.removals)) request.additions parts ∧
      (∀ part ∈ parts, part.id ∉ (prior.kept request).map Node.id) ∧
      (parts.map Component.id).Nodup ∧
      (prior.edit p request).root = { removeKinds prior request.removals with
        children := (removeKinds prior request.removals).children ++ parts.map .component } := by
  let root := removeKinds prior request.removals
  obtain ⟨parts, hbuilt, hfresh, hdistinct, hroot⟩ :=
    exists_fresh_parts p request.additions root (Plan.ids ⟨.edit, root⟩)
  have hout : (prior.edit p request).root =
      { root with children := root.children ++ parts.map .component } := hroot
  refine ⟨parts, ?_, hbuilt, hfresh, hdistinct, hout⟩
  rw [added, hout]
  exact List.drop_left

-- The ids of an edited plan are those of the nodes that are kept and those of the new parts.
theorem exists_ids_edit_eq (prior : Plan) (p : Placeholders) (request : Request) :
    ∃ parts : List Component, prior.added p request = parts.map .component ∧
      (prior.edit p request).ids =
        (prior.kept request).map Node.id ++ (parts.flatMap Component.walk).map Node.id ∧
      (∀ part ∈ parts, part.id ∉ (prior.kept request).map Node.id) ∧
      ((parts.flatMap Component.walk).map Node.id).Nodup := by
  obtain ⟨parts, hadded, hbuilt, hfresh, hdistinct, hout⟩ := exists_added_eq prior p request
  refine ⟨parts, hadded, ?_, hfresh, Layout.nodup_ids_of_appends hbuilt hdistinct⟩
  let root := removeKinds prior request.removals
  have hwalk : (prior.edit p request).nodes =
      (prior.edit p request).root.toNode :: (root.children.flatMap Node.walk ++
        parts.flatMap Component.walk) := by
    rw [nodes, Node.walk_eq, hout, Layout.toNode, Node.children, List.flatMap_append,
      List.flatMap_map]
    rfl
  have hid : (prior.edit p request).root.toNode.id = root.toNode.id := by rw [hout]; rfl
  rw [ids, hwalk, kept, Node.walk_eq root.toNode, List.map_cons, List.map_append, hid]
  rfl

variable {prior : Plan} {whitelist : Whitelist}

theorem nodup_kept (h : prior.ids.Nodup) (request : Request) :
    ((prior.kept request).map Node.id).Nodup := by
  have hstripped : ((prior.root.without request.removals).toNode.walk.map Node.id).Nodup :=
    h.sublist (Node.ids_without_sublist request.removals prior.root.toNode)
  rcases removeKinds_cases prior request.removals with ⟨-, hroot⟩ | ⟨-, hchildren⟩
  · rwa [kept, hroot]
  · have hchild : (removeKinds prior request.removals).toNode ∈
        (prior.root.without request.removals).toNode.children := by
      rw [Layout.toNode, Node.children, hchildren]
      exact List.mem_singleton_self _
    have hwalk := Node.walk_sublist_of_mem (Node.mem_walk_of_child hchild (Node.mem_walk_self _))
    exact hstripped.sublist (hwalk.map Node.id)

theorem nodup_ids_edit_iff (h : prior.ids.Nodup) (p : Placeholders) (request : Request) :
    (prior.edit p request).ids.Nodup ↔ ¬ prior.Clashes p request := by
  obtain ⟨parts, hadded, hids, hfresh, hparts⟩ := exists_ids_edit_eq prior p request
  rw [hids, List.nodup_append']
  constructor
  · rintro ⟨-, -, hdisjoint⟩ ⟨node, hnode, part, hpart, inner, hinner, hsame⟩
    rw [hadded] at hpart
    obtain ⟨c, hc, rfl⟩ := List.mem_map.mp hpart
    refine hdisjoint (List.mem_map_of_mem hnode) ?_
    rw [hsame]
    apply List.mem_map_of_mem
    refine List.mem_flatMap.mpr ⟨c, hc, ?_⟩
    have hwalk : inner ∈ (Node.component c).walk := by
      rw [Node.walk_eq]
      exact List.mem_cons_of_mem _ hinner
    exact hwalk
  · intro hnone
    refine ⟨nodup_kept h request, hparts, fun id hkept hadd => ?_⟩
    obtain ⟨node, hnode, rfl⟩ := List.mem_map.mp hkept
    obtain ⟨inner, hinner, hsame⟩ := List.mem_map.mp hadd
    obtain ⟨c, hc, hin⟩ := List.mem_flatMap.mp hinner
    have hwalk : inner ∈ (Node.component c).walk := hin
    rw [Node.walk_eq] at hwalk
    rcases List.mem_cons.mp hwalk with rfl | hbelow
    · have hpart : c.id = node.id := hsame
      exact hfresh c hc (hpart ▸ hkept)
    · refine hnone ⟨node, hnode, .component c, ?_, inner, hbelow, hsame.symm⟩
      rw [hadded]
      exact List.mem_map_of_mem hc

-- An edit of a plan that has been accepted makes all ids different exactly if it does not clash, and
-- a plan that is refused for a repeated id comes from a clash.
theorem nodup_edit_iff (hvalid : prior.validate whitelist = .ok prior) (p : Placeholders)
    (request : Request) :
    ((prior.edit p request).ids.Nodup ↔ ¬ prior.Clashes p request) ∧
    ∀ other kind id, (prior.edit p request).validate other =
      .error (.structural .duplicateId kind id) → prior.Clashes p request := by
  have hiff := nodup_ids_edit_iff (validate_eq_ok_iff.mp hvalid).2 p request
  refine ⟨hiff, fun other kind id hrefused => ?_⟩
  by_contra hnone
  exact not_nodup_ids_of_validate hrefused (hiff.mpr hnone)

-- A page with a text that has the id of the first input of a dialog.
def strayText : Plan where
  modification := .create
  root := {
    id := "page"
    kind := .column
    spacing := {}
    children := [.component ⟨"page.modal-1.input-0", .text, [("content", .string "Hi")], []⟩] }

-- A dialog with an input is added.
def addDialog : Request := { additions := [.modal "Settings" [⟨"Name", "text", "Your name"⟩]] }

-- The page is accepted, and with the dialog it is refused.
theorem strayText_edit_refused :
    strayText.validate .full = .ok strayText ∧ ¬ (strayText.edit {} addDialog).ids.Nodup ∧
    (strayText.edit {} addDialog).validate .full =
      .error (.structural .duplicateId "Input" "page.modal-1.input-0") := by
  refine ⟨rfl, by decide, rfl⟩

-- A chart next to the text does not clash, and the dialog does.
theorem strayText_clashes :
    strayText.validate .full = .ok strayText ∧
    ¬ strayText.Clashes {} { additions := [.chart] } ∧ strayText.Clashes {} addDialog := by
  have hvalid : strayText.validate .full = .ok strayText := rfl
  have hchart : (strayText.edit {} { additions := [.chart] }).ids.Nodup := by decide
  have hdialog : (strayText.edit {} addDialog).validate .full =
      .error (.structural .duplicateId "Input" "page.modal-1.input-0") := rfl
  exact ⟨hvalid, (nodup_edit_iff hvalid {} { additions := [.chart] }).1.mp hchart,
    (nodup_edit_iff hvalid {} addDialog).2 .full _ _ hdialog⟩

end Plan

end Wireframe
