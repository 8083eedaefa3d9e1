import Wireframe.Proofs.Clash
import Wireframe.Proofs.Difference
import Wireframe.Proofs.WellNumbered

namespace Wireframe

open Instruction (Addition Request)

namespace Node

variable {kinds : List ComponentKind} {tree : Node}

theorem isOneOf_iff {node : Node} :
    node.isOneOf kinds = true ↔ ∃ c, node = .component c ∧ c.kind ∈ kinds := by
  cases node with
  | layout id kind spacing children => simp [isOneOf]
  | component c => simp [isOneOf]

-- A node stays if it is not below one that goes.
theorem mem_walk_without {node : Node} (hnode : node ∈ tree.walk)
    (hstays : ∀ gone ∈ tree.walk, gone.isOneOf kinds = true → node ∉ gone.walk) :
    node.without kinds ∈ (tree.without kinds).walk := by
  induction tree using Node.induct with
  | step tree ih =>
    rcases mem_walk.mp hnode with rfl | ⟨child, hchild, hin⟩
    · exact mem_walk_self _
    · have hkept : child.isOneOf kinds = false := by
        rw [Bool.eq_false_iff]
        intro hgone
        exact hstays child (mem_walk_of_child hchild child.mem_walk_self) hgone hin
      have hreduced : child.without kinds ∈ (tree.without kinds).children := by
        rw [children_without]
        exact List.mem_map_of_mem (List.mem_filter.mpr ⟨hchild, by simp [hkept]⟩)
      refine mem_walk_of_child hreduced (ih child hchild hin fun gone hgone => ?_)
      exact hstays gone (mem_walk_of_child hchild hgone)

-- Of what is below a node that goes not even an id stays.
theorem id_notMem_walk_without {gone node : Node} (hall : ∀ inner ∈ tree.walk, inner.Numbered)
    (htree : tree.isOneOf kinds = false) (hgone : gone ∈ tree.walk)
    (hkind : gone.isOneOf kinds = true) (hnode : node ∈ gone.walk) :
    node.id ∉ (tree.without kinds).walk.map id := by
  induction tree using Node.induct with
  | step tree ih =>
    intro hmem
    obtain ⟨left, hleft, hid⟩ := List.mem_map.mp hmem
    rcases mem_walk.mp hgone with rfl | ⟨child, hchild, hin⟩
    · rw [htree] at hkind
      cases hkind
    · have hbelow := (walk_sublist_of_mem hin).subset hnode
      rcases mem_walk.mp hleft with rfl | ⟨reduced, hreduced, hinleft⟩
      · have hlonger := length_id_lt hall hchild hbelow
        rw [← hid, id_without] at hlonger
        omega
      · rw [children_without] at hreduced
        obtain ⟨other, hother, rfl⟩ := List.mem_map.mp hreduced
        obtain ⟨hchild', hkept⟩ := List.mem_filter.mp hother
        obtain ⟨inner, hinner, rfl⟩ := exists_of_mem_walk_without hinleft
        have hwithin : IdWithin inner.id node.id := by
          rw [← hid, id_without]
          exact .refl _
        obtain rfl := eq_of_idWithin_below hall hchild' hchild hinner hbelow hwithin
        refine ih other hchild ((tree.forall_mem_walk.mp hall).2 other hchild)
          (by simpa using hkept) hin ?_
        exact List.mem_map.mpr ⟨_, hinleft, hid⟩

end Node

namespace Plan

variable {prior : Plan} {kinds : List ComponentKind}

-- What a removal takes away: the components of the given kinds, everything below them, and the
-- wrapper if it is elided.
def Drops (prior : Plan) (kinds : List ComponentKind) (node : Node) : Prop :=
  (∃ c, Node.component c ∈ prior.nodes ∧ c.kind ∈ kinds ∧ node ∈ c.walk) ∨
    prior.elidesWrapper kinds = true ∧ node = prior.root.toNode

-- The ids that are left without the components, of which the first is that of the wrapper.
theorem ids_without_eq (prior : Plan) (kinds : List ComponentKind) :
    (prior.root.toNode.without kinds).walk.map Node.id =
      (if prior.elidesWrapper kinds then [prior.root.id] else []) ++
        (removeKinds prior kinds).toNode.walk.map Node.id := by
  rcases removeKinds_cases prior kinds with ⟨helides, hroot⟩ | ⟨helides, hchildren⟩
  · rw [helides, hroot]
    rfl
  · have hbelow : (prior.root.toNode.without kinds).children =
        [(removeKinds prior kinds).toNode] := hchildren
    rw [helides, Node.walk_eq, hbelow, List.map_cons, List.flatMap_singleton, Node.id_without]
    rfl

theorem id_mem_removeKinds_iff (hnumbered : prior.root.Numbered) {node : Node}
    (hnode : node ∈ prior.nodes) :
    node.id ∈ (removeKinds prior kinds).toNode.walk.map Node.id ↔ ¬ prior.Drops kinds node := by
  have hids := ids_without_eq prior kinds
  constructor
  · rintro hleft (⟨c, hc, hkind, hbelow⟩ | ⟨helides, rfl⟩)
    · have hgone := Node.id_notMem_walk_without hnumbered rfl hc
        (Node.isOneOf_iff.mpr ⟨c, rfl, hkind⟩) hbelow
      rw [hids] at hgone
      exact hgone (List.mem_append_right _ hleft)
    · -- the wrapper's id comes once only
      have hdistinct : ((prior.root.toNode.without kinds).walk.map Node.id).Nodup :=
        (Node.nodup_ids hnumbered).sublist (Node.ids_without_sublist kinds _)
      rw [hids, helides, if_pos rfl, List.singleton_append, List.nodup_cons] at hdistinct
      exact hdistinct.1 hleft
  · intro hstays
    have hreduced : node.without kinds ∈ (prior.root.toNode.without kinds).walk := by
      refine Node.mem_walk_without hnode fun gone hgone hkind hbelow => hstays (.inl ?_)
      obtain ⟨c, rfl, hmem⟩ := Node.isOneOf_iff.mp hkind
      exact ⟨c, hgone, hmem, hbelow⟩
    have hmem := List.mem_map_of_mem (f := Node.id) hreduced
    rw [hids, Node.id_without, List.mem_append] at hmem
    refine hmem.resolve_left fun hwrapper => hstays (.inr ?_)
    split at hwrapper
    · next helides =>
      refine ⟨helides, ?_⟩
      exact List.inj_on_of_nodup_map (Node.nodup_ids hnumbered) hnode
        prior.root.toNode.mem_walk_self (List.mem_singleton.mp hwrapper)
    · cases hwrapper

end Plan

-- The kind of the part that an addition appends. Charts and tables come in cards.
def Instruction.Addition.partKind : Addition → ComponentKind
  | modal _ _ => .modal
  | chart | table => .card

theorem kind_additionDraft (p : Placeholders) (addition : Addition) :
    (additionDraft p addition).kind = addition.partKind := by
  cases addition <;> rfl

namespace Plan

variable {prior : Plan} {p : Placeholders} {request : Request}

-- The ids of a new part are new for the plan before as well. A node of it with one of these ids
-- would be below a child of the new root with the id of the part; and this child has stayed.
theorem id_notMem_of_appends (hprior : prior.WellNumbered) {addition : Addition} {part : Component}
    (hpart : Layout.Appends p (removeKinds prior request.removals) addition part)
    (hkind : addition.partKind ∉ request.removals)
    (hfresh : part.id ∉ (prior.kept request).map Node.id) {node : Node}
    (hnode : node ∈ (Node.component part).walk) : node.id ∉ prior.ids := by
  have hnumbered := wellNumbered_iff.mp hprior
  obtain ⟨number, rfl⟩ := hpart
  intro hmem
  obtain ⟨inner, hinner, hid⟩ := List.mem_map.mp hmem
  obtain ⟨original, horiginal, hroot⟩ := exists_of_mem_walk_removeKinds
    (removeKinds prior request.removals).toNode.mem_walk_self
  have hrootId : (removeKinds prior request.removals).id = original.id :=
    (congrArg Node.id hroot).trans (original.id_without request.removals)
  rw [hrootId] at hnode hfresh
  have hbuilt : ∀ id, ∀ inner ∈ ((Draft.component (additionDraft p addition)).build id).walk,
      inner.Numbered := fun id inner hin => Draft.numbered_of_mem_walk_build hin
  have hwithin := Node.idWithin_of_mem_walk (hbuilt _) hnode
  rw [← hid, Draft.id_build] at hwithin
  obtain ⟨child, hchild, hchildKind, hchildId⟩ :=
    Node.exists_child_of_idWithin hnumbered horiginal hinner hwithin
  have hstays : child.isOneOf request.removals = false := by
    rw [Bool.eq_false_iff]
    intro hgone
    obtain ⟨c, rfl, hremoved⟩ := Node.isOneOf_iff.mp hgone
    rw [Node.kind, kind_additionDraft] at hchildKind
    rw [Kind.component.inj hchildKind] at hremoved
    exact hkind hremoved
  have hreduced : child.without request.removals ∈
      (removeKinds prior request.removals).toNode.children := by
    rw [hroot, Node.children_without]
    exact List.mem_map_of_mem (List.mem_filter.mpr ⟨hchild, by simp [hstays]⟩)
  apply hfresh
  rw [ComponentDraft.id_build, ← hchildId, ← child.id_without request.removals]
  exact List.mem_map_of_mem (Node.mem_walk_of_child hreduced (Node.mem_walk_self _))

-- A node of the edited plan shows what a node that has been kept shows, or belongs to a new part.
theorem mem_nodes_edit {node : Node} (hnode : node ∈ (prior.edit p request).nodes) :
    (∃ old ∈ prior.nodes, old.id = node.id ∧ old.props = node.props) ∨
    ∃ part ∈ prior.added p request, node ∈ part.walk := by
  obtain ⟨parts, hadded, -, -, -, hout⟩ := exists_added_eq prior p request
  have hkept : ∀ left ∈ prior.kept request, ∃ old ∈ prior.nodes, old.id = left.id ∧
      old.props = left.props := by
    intro left hleft
    obtain ⟨old, hold, heq⟩ := exists_of_mem_walk_removeKinds hleft
    exact ⟨old, hold, by rw [heq, Node.id_without], by rw [heq, Node.props_without]⟩
  have hroot := hkept _ (removeKinds prior request.removals).toNode.mem_walk_self
  rw [nodes, hout, Node.mem_walk] at hnode
  rcases hnode with rfl | ⟨child, hchild, hin⟩
  · exact .inl hroot
  · rcases List.mem_append.mp hchild with hchild | hchild
    · exact .inl (hkept node (Node.mem_walk_of_child hchild hin))
    · exact .inr ⟨child, hadded ▸ hchild, hin⟩

theorem mem_kept_ids_iff (hprior : prior.WellNumbered) {id : String} :
    id ∈ (prior.kept request).map Node.id ↔
      ∃ node ∈ prior.nodes, ¬ prior.Drops request.removals node ∧ node.id = id := by
  have hnumbered := wellNumbered_iff.mp hprior
  constructor
  · intro hid
    obtain ⟨left, hleft, rfl⟩ := List.mem_map.mp hid
    obtain ⟨node, hnode, heq⟩ := exists_of_mem_walk_removeKinds hleft
    have hsame : node.id = left.id := by rw [heq, Node.id_without]
    rw [← hsame] at hid
    exact ⟨node, hnode, (id_mem_removeKinds_iff hnumbered hnode).mp hid, hsame⟩
  · rintro ⟨node, hnode, hstays, rfl⟩
    exact (id_mem_removeKinds_iff hnumbered hnode).mpr hstays

theorem mem_ids_edit_iff {id : String} :
    id ∈ (prior.edit p request).ids ↔ id ∈ (prior.kept request).map Node.id ∨
      ∃ part ∈ prior.added p request, ∃ node ∈ part.walk, node.id = id := by
  obtain ⟨parts, hadded, hids, -, -⟩ := exists_ids_edit_eq prior p request
  rw [hids, hadded, List.mem_append, List.map_flatMap, List.mem_flatMap]
  simp only [List.mem_map, exists_exists_and_eq_and]
  rfl

section

variable (hprior : prior.WellNumbered)
  (hkinds : ∀ addition ∈ request.additions, addition.partKind ∉ request.removals)

include hprior hkinds

theorem id_notMem_of_added {part node : Node} (hpart : part ∈ prior.added p request)
    (hnode : node ∈ part.walk) : node.id ∉ prior.ids := by
  obtain ⟨parts, hadded, hbuilt, hfresh, -, -⟩ := exists_added_eq prior p request
  rw [hadded] at hpart
  obtain ⟨c, hc, rfl⟩ := List.mem_map.mp hpart
  obtain ⟨addition, haddition, happends⟩ := Layout.Appends.exists_of_mem hbuilt hc
  exact id_notMem_of_appends hprior happends (hkinds addition haddition) (hfresh c hc) hnode

-- An id stays if and only if both plans have it.
theorem mem_kept_ids_iff_mem {id : String} :
    id ∈ (prior.kept request).map Node.id ↔ id ∈ prior.ids ∧ id ∈ (prior.edit p request).ids := by
  rw [mem_ids_edit_iff]
  constructor
  · intro hkept
    obtain ⟨node, hnode, -, rfl⟩ := (mem_kept_ids_iff hprior).mp hkept
    exact ⟨List.mem_map_of_mem hnode, .inl hkept⟩
  · rintro ⟨hmem, hkept | ⟨part, hpart, node, hnode, rfl⟩⟩
    · exact hkept
    · exact absurd hmem (id_notMem_of_added hprior hkinds hpart hnode)

-- Only the plan before has the ids of what is taken away.
theorem mem_ids_and_notMem_ids_edit_iff {id : String} :
    id ∈ prior.ids ∧ id ∉ (prior.edit p request).ids ↔
      ∃ node ∈ prior.nodes, prior.Drops request.removals node ∧ node.id = id := by
  constructor
  · rintro ⟨hmem, habsent⟩
    obtain ⟨node, hnode, rfl⟩ := List.mem_map.mp hmem
    refine ⟨node, hnode, ?_, rfl⟩
    by_contra hstays
    have hkept := (mem_kept_ids_iff hprior).mpr ⟨node, hnode, hstays, rfl⟩
    exact habsent ((mem_kept_ids_iff_mem hprior hkinds).mp hkept).2
  · rintro ⟨node, hnode, hdrops, rfl⟩
    have hmem : node.id ∈ prior.ids := List.mem_map_of_mem hnode
    refine ⟨hmem, fun hout => ?_⟩
    have hkept := (mem_kept_ids_iff_mem hprior hkinds).mpr ⟨hmem, hout⟩
    exact (id_mem_removeKinds_iff (wellNumbered_iff.mp hprior) hnode).mp hkept hdrops

-- Only the edited plan has the ids of what is appended.
theorem notMem_ids_and_mem_ids_edit_iff {id : String} :
    id ∉ prior.ids ∧ id ∈ (prior.edit p request).ids ↔
      ∃ part ∈ prior.added p request, ∃ node ∈ part.walk, node.id = id := by
  constructor
  · rintro ⟨habsent, hout⟩
    refine (mem_ids_edit_iff.mp hout).resolve_left fun hkept => ?_
    obtain ⟨node, hnode, -, rfl⟩ := (mem_kept_ids_iff hprior).mp hkept
    exact habsent (List.mem_map_of_mem hnode)
  · intro hadded
    refine ⟨?_, mem_ids_edit_iff.mpr (.inr hadded)⟩
    obtain ⟨part, hpart, node, hnode, rfl⟩ := hadded
    exact id_notMem_of_added hprior hkinds hpart hnode

-- Under an id that both plans have there are the same props.
theorem props_eq_of_last? {id : String} {old now : Node} (hold : prior.last? id = some old)
    (hnow : (prior.edit p request).last? id = some now) : old.props = now.props := by
  obtain ⟨hmem, rfl⟩ := mem_nodes_of_last? hold
  obtain ⟨hmem', hid⟩ := mem_nodes_of_last? hnow
  rcases mem_nodes_edit hmem' with ⟨other, hother, hsame, hprops⟩ | ⟨part, hpart, hin⟩
  · obtain rfl := List.inj_on_of_nodup_map hprior.distinct hother hmem (hsame.trans hid)
    exact hprops
  · have habsent := id_notMem_of_added hprior hkinds hpart hin
    rw [hid] at habsent
    exact absurd (List.mem_map_of_mem hmem) habsent

end

end Plan

namespace Difference

-- The difference between a plan and an edit of it is the edit: removed is what the removals take
-- away, added is the part that each addition appends, and everything else is as it was. Each id is
-- told once.
theorem between_edit {prior : Plan} {request : Request} (hprior : prior.WellNumbered)
    (p : Placeholders)
    (hkinds : ∀ addition ∈ request.additions, addition.partKind ∉ request.removals) :
    let difference := between (some prior) (prior.edit p request)
    difference.changes.keys.Nodup ∧ difference.idsOf .updated = [] ∧
    (∀ id, id ∈ difference.idsOf .removed ↔
      ∃ node ∈ prior.nodes, prior.Drops request.removals node ∧ node.id = id) ∧
    (∃ parts : List Component, prior.added p request = parts.map .component ∧
      List.Forall₂ (Layout.Appends p (prior.edit p request).root) request.additions parts ∧
      ∀ id, id ∈ difference.idsOf .added ↔
        ∃ part ∈ parts, ∃ node ∈ part.walk, node.id = id) ∧
    ∀ id, id ∈ difference.idsOf .unchanged ↔
      ∃ node ∈ prior.nodes, ¬ prior.Drops request.removals node ∧ node.id = id := by
  intro difference
  have hfresh : (prior.edit p request).modification ≠ .regenerate := nofun
  refine ⟨nodup_keys_changes hfresh, ?_, fun id => ?_, ?_, fun id => ?_⟩
  · rw [List.eq_nil_iff_forall_not_mem]
    intro id hid
    simp only [difference, mem_idsOf_cases hfresh, reduceCtorEq, false_and, false_or,
      true_and] at hid
    obtain ⟨old, now, hold, hnow, hprops⟩ := hid
    exact hprops (by rw [Plan.props_eq_of_last? hprior hkinds hold hnow])
  · simp only [difference, mem_idsOf_cases hfresh, reduceCtorEq, false_and, false_or, true_and,
      or_false, and_false, exists_false]
    exact Plan.mem_ids_and_notMem_ids_edit_iff hprior hkinds
  · obtain ⟨parts, hadded, hbuilt, -, -, hroot⟩ := prior.exists_added_eq p request
    refine ⟨parts, hadded, hroot ▸ hbuilt, fun id => ?_⟩
    simp only [difference, mem_idsOf_cases hfresh, reduceCtorEq, false_and, true_and, or_false,
      and_false, exists_false]
    rw [Plan.notMem_ids_and_mem_ids_edit_iff hprior hkinds, hadded]
    simp only [List.mem_map, exists_exists_and_eq_and, Node.walk]
  · simp only [difference, mem_idsOf_cases hfresh, reduceCtorEq, false_and, false_or, true_and,
      or_false]
    rw [← Plan.mem_kept_ids_iff hprior, Plan.mem_kept_ids_iff_mem hprior hkinds,
      ← Plan.exists_last?_iff, ← Plan.exists_last?_iff]
    constructor
    · rintro ⟨old, now, hold, hnow, -⟩
      exact ⟨⟨old, hold⟩, now, hnow⟩
    · rintro ⟨⟨old, hold⟩, now, hnow⟩
      exact ⟨old, now, hold, hnow, by rw [Plan.props_eq_of_last? hprior hkinds hold hnow]⟩

-- A sidebar next to a column with a navigation bar and a card.
def framedPage : LayoutDraft where
  kind := .row
  children := [
    .component { kind := .sidebar },
    .layout .column {} [.component { kind := .navbar }, .component { kind := .card }]]

-- The sidebar goes, a dialog comes.
def sidebarForDialog : Request where
  removals := [.sidebar]
  additions := [.modal "Settings" [⟨"Name", "text", "Your name"⟩]]

-- The column takes the place of the row, so that the row goes as well. The input comes with the
-- dialog.
theorem between_edit_framedPage :
    let prior : Plan := ⟨.create, framedPage.build⟩
    let difference := between (some prior) (prior.edit {} sidebarForDialog)
    prior.WellNumbered ∧
    (∀ addition ∈ sidebarForDialog.additions, addition.partKind ∉ sidebarForDialog.removals) ∧
    difference.idsOf .updated = [] ∧ "row-0" ∈ difference.idsOf .removed ∧
    "row-0.column-1.modal-2.input-0" ∈ difference.idsOf .added ∧
    "row-0.column-1.card-1" ∈ difference.idsOf .unchanged := by
  intro prior difference
  have hprior : prior.WellNumbered := Plan.wellNumbered_build framedPage .create
  have hkinds : ∀ addition ∈ sidebarForDialog.additions,
      addition.partKind ∉ sidebarForDialog.removals := by decide
  obtain ⟨-, hupdated, hremoved, ⟨parts, hparts, -, hadded⟩, hunchanged⟩ :=
    between_edit hprior {} hkinds
  refine ⟨hprior, hkinds, hupdated, ?_, ?_, ?_⟩
  · exact (hremoved "row-0").mpr ⟨prior.root.toNode, Node.mem_walk_self _, .inr ⟨rfl, rfl⟩, rfl⟩
  · have hid : "row-0.column-1.modal-2.input-0" ∈
        (prior.added {} sidebarForDialog).flatMap fun part => part.walk.map Node.id := by decide
    rw [hparts] at hid
    exact (hadded _).mpr (by simpa [Node.walk] using hid)
  · have hcard : "row-0.column-1.card-1" ∈ (prior.kept sidebarForDialog).map Node.id := by decide
    exact (hunchanged _).mpr ((Plan.mem_kept_ids_iff hprior).mp hcard)

end Difference

end Wireframe
