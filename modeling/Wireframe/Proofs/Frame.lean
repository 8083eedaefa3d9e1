import Mathlib.Data.List.Forall2
import Wireframe.Plan.Edit
import Wireframe.Proofs.Numbering

namespace Wireframe

open Instruction (Addition Request)

-- A node without what is below it.
def Node.bare : Node → Node
  | .layout id kind spacing _ => .layout id kind spacing []
  | .component c => .component ⟨c.id, c.kind, c.props, []⟩

mutual

-- The walk with the way up: each node comes with its parent, the parent of that and so on. `above`
-- is the way up from the first node.
def Component.trails (above : List Node) : Component → List (List Node)
  | ⟨id, kind, props, children⟩ =>
    (.component ⟨id, kind, props, []⟩ :: above) ::
      Component.allTrails (.component ⟨id, kind, props, []⟩ :: above) children

def Component.allTrails (above : List Node) : List Component → List (List Node)
  | [] => []
  | c :: rest => c.trails above ++ Component.allTrails above rest

end

mutual

def Node.trails (above : List Node) : Node → List (List Node)
  | .layout id kind spacing children =>
    (.layout id kind spacing [] :: above) ::
      Node.allTrails (.layout id kind spacing [] :: above) children
  | .component c => c.trails above

def Node.allTrails (above : List Node) : List Node → List (List Node)
  | [] => []
  | node :: rest => node.trails above ++ Node.allTrails above rest

end

def Plan.trails (plan : Plan) : List (List Node) := plan.root.toNode.trails []

theorem Component.allTrails_eq (above : List Node) (parts : List Component) :
    Component.allTrails above parts = parts.flatMap (Component.trails above) := by
  induction parts with
  | nil => rfl
  | cons c rest ih => rw [Component.allTrails, ih, List.flatMap_cons]

namespace Node

theorem allTrails_eq (above : List Node) (nodes : List Node) :
    allTrails above nodes = nodes.flatMap (trails above) := by
  induction nodes with
  | nil => rfl
  | cons node rest ih => rw [allTrails, ih, List.flatMap_cons]

theorem trails_eq (above : List Node) (node : Node) :
    node.trails above =
      (node.bare :: above) :: node.children.flatMap (trails (node.bare :: above)) := by
  cases node with
  | layout id kind spacing children => rw [trails, allTrails_eq, bare, Node.children]
  | component c =>
    cases c
    rw [trails, Component.trails, Component.allTrails_eq, bare, Node.children, List.flatMap_map]
    rfl

-- The trails start with the nodes of the walk.
theorem filterMap_head?_trails (above : List Node) (node : Node) :
    (node.trails above).filterMap List.head? = node.walk.map bare := by
  induction node using Node.induct generalizing above with
  | step node ih =>
    rw [trails_eq, walk_eq, List.filterMap_cons_some List.head?_cons, List.map_cons,
      List.filterMap_flatMap, List.map_flatMap]
    congr 1
    apply List.flatMap_congr
    intro child hchild
    exact ih child hchild _

-- More of the way up stands at the end of each trail.
theorem trails_append (above beyond : List Node) (node : Node) :
    node.trails (above ++ beyond) = (node.trails above).map (· ++ beyond) := by
  induction node using Node.induct generalizing above with
  | step node ih =>
    rw [trails_eq, trails_eq, List.map_cons, List.map_flatMap, List.cons_append]
    congr 1
    apply List.flatMap_congr
    intro child hchild
    exact ih child hchild (node.bare :: above)

-- Each trail leads through the first node.
theorem exists_of_mem_trails {above trail : List Node} {node : Node}
    (htrail : trail ∈ node.trails above) : ∃ below, trail = below ++ node.bare :: above := by
  induction node using Node.induct generalizing above with
  | step node ih =>
    rw [trails_eq, List.mem_cons, List.mem_flatMap] at htrail
    rcases htrail with rfl | ⟨child, hchild, hin⟩
    · exact ⟨[], rfl⟩
    · obtain ⟨below, rfl⟩ := ih child hchild hin
      exact ⟨below ++ [child.bare], by simp⟩

end Node

theorem Component.allWithout_eq (kinds : List ComponentKind) (parts : List Component) :
    Component.allWithout kinds parts =
      (parts.filter fun c => !kinds.contains c.kind).map (Component.without kinds) := by
  induction parts with
  | nil => rfl
  | cons c rest ih =>
    rw [Component.allWithout, ih, List.filter_cons]
    cases kinds.contains c.kind <;> rfl

namespace Node

variable (kinds : List ComponentKind)

theorem allWithout_eq (nodes : List Node) :
    allWithout kinds nodes =
      (nodes.filter fun node => !node.isOneOf kinds).map (without kinds) := by
  induction nodes with
  | nil => rfl
  | cons node rest ih =>
    rw [allWithout, ih, List.filter_cons]
    cases node.isOneOf kinds <;> rfl

-- The children that stay, with their own removals applied.
theorem children_without (node : Node) :
    (node.without kinds).children =
      (node.children.filter fun child => !child.isOneOf kinds).map (without kinds) := by
  cases node with
  | layout id kind spacing children => rw [without, Node.children, allWithout_eq, Node.children]
  | component c =>
    cases c
    rw [without, Component.without, Node.children, Component.allWithout_eq, Node.children,
      List.filter_map, List.map_map, List.map_map]
    rfl

@[simp] theorem id_without (node : Node) : (node.without kinds).id = node.id := by
  cases node with
  | layout id kind spacing children => rfl
  | component c => cases c; rfl

@[simp] theorem kind_without (node : Node) : (node.without kinds).kind = node.kind := by
  cases node with
  | layout id kind spacing children => rfl
  | component c => cases c; rfl

@[simp] theorem props_without (node : Node) : (node.without kinds).props = node.props := by
  cases node with
  | layout id kind spacing children => rfl
  | component c => cases c; rfl

@[simp] theorem bare_without (node : Node) : (node.without kinds).bare = node.bare := by
  cases node with
  | layout id kind spacing children => rfl
  | component c => cases c; rfl

@[simp] theorem isOneOf_bare (node : Node) : node.bare.isOneOf kinds = node.isOneOf kinds := by
  cases node <;> rfl

-- What a node has above and below it makes the node.
theorem eq_of_bare_eq {a b : Node} (hbare : a.bare = b.bare) (hchildren : a.children = b.children) :
    a = b := by
  cases a with
  | layout id kind spacing children =>
    cases b with
    | layout =>
      obtain ⟨rfl, rfl, rfl, -⟩ := Node.layout.inj hbare
      exact congrArg (layout id kind spacing) hchildren
    | component => cases hbare
  | component c =>
    cases b with
    | layout => cases hbare
    | component d =>
      obtain ⟨id, kind, props, parts⟩ := c
      obtain ⟨id', kind', props', parts'⟩ := d
      obtain ⟨rfl, rfl, rfl, -⟩ := Component.mk.inj (Node.component.inj hbare)
      have hparts := List.map_injective_iff.mpr (fun _ _ => Node.component.inj) hchildren
      obtain rfl : parts = parts' := hparts
      rfl

-- Where nothing is of a kind that goes, everything stays.
theorem without_eq_self {node : Node} (hnone : ∀ inner ∈ node.walk, inner.isOneOf kinds = false) :
    node.without kinds = node := by
  induction node using Node.induct with
  | step node ih =>
    have hchildren : ∀ child ∈ node.children,
        child.isOneOf kinds = false ∧ child.without kinds = child := fun child hchild =>
      ⟨hnone child (mem_walk_of_child hchild (mem_walk_self child)),
        ih child hchild fun inner hinner => hnone inner (mem_walk_of_child hchild hinner)⟩
    have hall : (node.children.filter fun child => !child.isOneOf kinds) = node.children :=
      List.filter_eq_self.mpr fun child hchild => by simp [hchildren child hchild]
    apply eq_of_bare_eq (bare_without kinds node)
    rw [children_without, hall]
    exact (List.map_congr_left fun child hchild => (hchildren child hchild).2).trans (List.map_id _)

-- A trail on which no node is of a kind that goes.
def Stays (trail : List Node) : Bool := trail.all fun node => !node.isOneOf kinds

-- Dropping items is the same as mapping them to nothing.
theorem flatMap_filter_eq {α β : Type} (p : α → Bool) (f g : α → List β) (items : List α)
    (hkept : ∀ a ∈ items, p a = true → f a = g a) (hgone : ∀ a ∈ items, p a = false → g a = []) :
    (items.filter p).flatMap f = items.flatMap g := by
  induction items with
  | nil => rfl
  | cons a rest ih =>
    obtain ⟨hkept, hkeptRest⟩ := List.forall_mem_cons.mp hkept
    obtain ⟨hgone, hgoneRest⟩ := List.forall_mem_cons.mp hgone
    rw [List.filter_cons, List.flatMap_cons]
    cases hp : p a with
    | true => rw [if_pos rfl, List.flatMap_cons, hkept hp, ih hkeptRest hgoneRest]
    | false =>
      rw [if_neg Bool.false_ne_true, hgone hp, List.nil_append, ih hkeptRest hgoneRest]

theorem filter_trails_of_isOneOf {above : List Node} {node : Node}
    (hnode : node.isOneOf kinds = true) : (node.trails above).filter (Stays kinds) = [] := by
  rw [List.filter_eq_nil_iff]
  intro trail htrail
  obtain ⟨below, rfl⟩ := exists_of_mem_trails htrail
  simp [Stays, hnode]

-- Removing keeps the trails without a node that goes, in their order, and no others.
theorem trails_without {above : List Node} (node : Node) (hnode : node.isOneOf kinds = false)
    (habove : Stays kinds above = true) :
    (node.without kinds).trails above = (node.trails above).filter (Stays kinds) := by
  induction node using Node.induct generalizing above with
  | step node ih =>
    have hstays : Stays kinds (node.bare :: above) = true := by
      simpa [Stays, hnode] using habove
    rw [trails_eq, trails_eq, List.filter_cons_of_pos hstays, bare_without, children_without,
      List.filter_flatMap, List.flatMap_map]
    congr 1
    apply flatMap_filter_eq
    · intro child hchild hkept
      exact ih child hchild (Bool.not_eq_true' _ ▸ hkept) hstays
    · intro child _ hgone
      exact filter_trails_of_isOneOf kinds (by simpa using hgone)

end Node

-- The root has become a mere wrapper, so that its only child takes its place.
def Plan.elidesWrapper (prior : Plan) (kinds : List ComponentKind) : Bool :=
  !kinds.isEmpty && (survivor? prior (prior.root.without kinds)).isSome

theorem children_of_survivor? {prior : Plan} {stripped survivor : Layout}
    (h : survivor? prior stripped = some survivor) : stripped.children = [survivor.toNode] := by
  unfold survivor? at h
  split at h
  · next hchildren =>
    obtain ⟨-, h⟩ := Option.ite_none_right_eq_some.mp h
    cases h
    exact hchildren
  · cases h

-- Removing either keeps the root or gives the layout that is its only child.
theorem removeKinds_cases (prior : Plan) (kinds : List ComponentKind) :
    (prior.elidesWrapper kinds = false ∧ removeKinds prior kinds = prior.root.without kinds) ∨
    (prior.elidesWrapper kinds = true ∧
      (prior.root.without kinds).children = [(removeKinds prior kinds).toNode]) := by
  simp only [Plan.elidesWrapper, removeKinds]
  cases kinds.isEmpty with
  | true => simp
  | false =>
    cases hsurvivor : survivor? prior (prior.root.without kinds) with
    | none => simp
    | some survivor => simpa using children_of_survivor? hsurvivor

theorem Layout.without_nil (root : Layout) : root.without [] = root := by
  have hsame : root.toNode.without [] = root.toNode :=
    Node.without_eq_self [] fun inner _ => by cases inner <;> rfl
  exact Layout.toNode_injective hsame

theorem removeKinds_nil (prior : Plan) : removeKinds prior [] = prior.root :=
  prior.root.without_nil

-- The trails of a plan that a removal keeps, without the wrapper if it is elided.
def Plan.keptTrails (prior : Plan) (kinds : List ComponentKind) : List (List Node) :=
  let kept := prior.trails.filter (Node.Stays kinds)
  if prior.elidesWrapper kinds then kept.tail.map List.dropLast else kept

theorem trails_removeKinds (prior : Plan) (kinds : List ComponentKind) :
    (removeKinds prior kinds).toNode.trails [] = prior.keptTrails kinds := by
  have hkept : (prior.root.without kinds).toNode.trails [] =
      prior.trails.filter (Node.Stays kinds) :=
    Node.trails_without kinds prior.root.toNode rfl rfl
  unfold Plan.keptTrails
  rcases removeKinds_cases prior kinds with ⟨helides, hroot⟩ | ⟨helides, hchildren⟩
  · rw [helides, hroot, hkept]
    rfl
  · -- the wrapper stands at the head of the list and at the end of every other trail
    let wrapper := (prior.root.without kinds).toNode.bare
    have hbelow : (prior.root.without kinds).toNode.children = [(removeKinds prior kinds).toNode] :=
      hchildren
    have hwrapped : (prior.root.without kinds).toNode.trails [] =
        [wrapper] :: (removeKinds prior kinds).toNode.trails [wrapper] := by
      rw [Node.trails_eq, hbelow, List.flatMap_cons, List.flatMap_nil, List.append_nil]
    have hends : (removeKinds prior kinds).toNode.trails [wrapper] =
        ((removeKinds prior kinds).toNode.trails []).map (· ++ [wrapper]) :=
      Node.trails_append [] [wrapper] _
    have hdrop : List.dropLast ∘ (· ++ [wrapper]) = id :=
      funext fun _ => List.dropLast_concat
    rw [helides, ← hkept, hwrapped, hends, if_pos rfl, List.tail_cons, List.map_map, hdrop,
      List.map_id]

-- A component that an addition appends below a root.
def Layout.Appends (p : Placeholders) (root : Layout) (addition : Addition) (part : Component) :
    Prop :=
  ∃ number, part = (additionDraft p addition).build
    (nodeId (some root.id) (.component (additionDraft p addition).kind) number)

-- Adding changes nothing but the end of the root's children. Each part that it puts there has an id
-- of its own that was not taken.
theorem exists_fresh_parts (p : Placeholders) (additions : List Addition) :
    ∀ (root : Layout) (taken : List String), ∃ parts : List Component,
      List.Forall₂ (Layout.Appends p root) additions parts ∧
      (∀ part ∈ parts, part.id ∉ taken) ∧ (parts.map Component.id).Nodup ∧
      appendAll p root taken additions =
        { root with children := root.children ++ parts.map .component } := by
  induction additions with
  | nil =>
    intro root taken
    exact ⟨[], .nil, nofun, .nil, by rw [appendAll, List.map_nil, List.append_nil]⟩
  | cons addition rest ih =>
    intro root taken
    let draft := additionDraft p addition
    let id := nextFreeId root.id (.component draft.kind) root.children.length taken
    obtain ⟨number, hid, hfree⟩ : ∃ number,
        id = nodeId (some root.id) (.component draft.kind) number ∧ id ∉ taken := by
      obtain ⟨number, hid, hfree, -⟩ := nextFreeId_eq root.children.length
        fun number (h : nodeId (some root.id) (.component draft.kind) number ∈ taken) => h
      exact ⟨number, hid, fun hmem => hfree (hid ▸ hmem)⟩
    have hpart : (draft.build id).id = id := draft.id_build id
    obtain ⟨parts, hbuilt, hfresh, hdistinct, hrest⟩ :=
      ih { root with children := root.children ++ [.component (draft.build id)] } (id :: taken)
    refine ⟨draft.build id :: parts, .cons ⟨number, by rw [← hid]⟩ hbuilt, ?_, ?_, ?_⟩
    · refine List.forall_mem_cons.mpr ⟨by rwa [hpart], fun part hmem htaken => ?_⟩
      exact hfresh part hmem (List.mem_cons_of_mem id htaken)
    · rw [List.map_cons, hpart, List.nodup_cons]
      refine ⟨fun hmem => ?_, hdistinct⟩
      obtain ⟨part, hmem, hsame⟩ := List.mem_map.mp hmem
      exact hfresh part hmem (hsame ▸ List.mem_cons_self)
    · rw [appendAll, hrest, List.map_cons, List.append_assoc, List.singleton_append]

theorem appendAll_eq (p : Placeholders) (additions : List Addition) (root : Layout)
    (taken : List String) : ∃ parts : List Component,
      List.Forall₂ (Layout.Appends p root) additions parts ∧
      appendAll p root taken additions =
        { root with children := root.children ++ parts.map .component } := by
  obtain ⟨parts, hbuilt, -, -, hroot⟩ := exists_fresh_parts p additions root taken
  exact ⟨parts, hbuilt, hroot⟩

theorem trails_appended (root : Layout) (parts : List Component) :
    ({ root with children := root.children ++ parts.map .component } : Layout).toNode.trails [] =
      root.toNode.trails [] ++
        parts.flatMap fun part => (Node.component part).trails [root.toNode.bare] := by
  rw [Node.trails_eq, Node.trails_eq [] root.toNode, Layout.toNode, Layout.toNode, Node.children,
    Node.children, List.flatMap_append, List.flatMap_map, List.cons_append]
  rfl

namespace Plan

-- The trails of an edited plan are those that the removals keep, followed by the trails of what is
-- added, part by part. With the trails the walk is as it was; so nothing that stays is changed, moved
-- or repeated.
theorem edit_frame (prior : Plan) (p : Placeholders) (request : Request) :
    let out := prior.edit p request
    out.modification = .edit ∧
    (∃ kept parts,
      out.root.children = kept ++ parts.map .component ∧
      List.Forall₂ (Layout.Appends p out.root) request.additions parts ∧
      out.trails = prior.keptTrails request.removals ++
        parts.flatMap (fun part => (Node.component part).trails [out.root.toNode.bare]) ∧
      out.nodes.map Node.bare = (prior.keptTrails request.removals).filterMap List.head? ++
        parts.flatMap (fun part => part.walk.map Node.bare)) ∧
    (prior.edit p {}).root = prior.root := by
  intro out
  let root := removeKinds prior request.removals
  obtain ⟨parts, hbuilt, hroot⟩ :=
    appendAll_eq p request.additions root (Plan.ids ⟨.edit, root⟩)
  have hout : out.root = { root with children := root.children ++ parts.map .component } := hroot
  have htrails : out.trails = prior.keptTrails request.removals ++
      parts.flatMap (fun part => (Node.component part).trails [out.root.toNode.bare]) := by
    rw [Plan.trails, hout, trails_appended, trails_removeKinds]
    rfl
  refine ⟨rfl, ⟨root.children, parts, ?_, ?_, htrails, ?_⟩, ?_⟩
  · rw [hout]
  · rw [hout]
    exact hbuilt
  · have hheads : out.nodes.map Node.bare = out.trails.filterMap List.head? :=
      (Node.filterMap_head?_trails [] out.root.toNode).symm
    rw [hheads, htrails, List.filterMap_append, List.filterMap_flatMap]
    simp only [Node.filterMap_head?_trails, Node.walk]
  · exact removeKinds_nil prior

end Plan

end Wireframe
