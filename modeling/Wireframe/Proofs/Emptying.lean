import Wireframe.Proofs.EditDifference

namespace Wireframe

namespace Node

variable {whitelist : Whitelist} {kinds : List ComponentKind} {node : Node}

-- A layout that holds nothing but components of the given kinds.
def EmptiedBy (kinds : List ComponentKind) (node : Node) : Prop :=
  node.kind.role = .layout ∧ ∀ child ∈ node.children, ∃ c, child = .component c ∧ c.kind ∈ kinds

-- What is wrong with a valid node once the components of the given kinds are gone.
def emptied? (kinds : List ComponentKind) : Node → Option Fault
  | .layout id kind _ children =>
    if children.all (isOneOf kinds) then some (.structural .emptyLayout kind.name id) else none
  | .component _ => none

theorem emptied?_eq_some_iff {fault : Fault} :
    node.emptied? kinds = some fault ↔
      node.EmptiedBy kinds ∧ .structural .emptyLayout node.kind.name node.id = fault := by
  cases node with
  | component c => exact iff_of_false nofun (by rintro ⟨⟨⟨⟩, -⟩, -⟩)
  | layout id kind spacing children =>
    simp only [emptied?, Option.ite_none_right_eq_some, List.all_eq_true, isOneOf_iff, EmptiedBy,
      Option.some.injEq, Node.kind, Node.id, Node.children, Kind.role, Kind.name, true_and]

theorem emptied?_eq_none_iff : node.emptied? kinds = none ↔ ¬ node.EmptiedBy kinds := by
  rw [Option.eq_none_iff_forall_ne_some]
  simp only [ne_eq, emptied?_eq_some_iff, not_and]
  exact ⟨fun h hemptied => h _ hemptied rfl, fun h _ hemptied => absurd hemptied h⟩

theorem EmptiedBy.children_without (h : node.EmptiedBy kinds) :
    (node.without kinds).children = [] := by
  rw [Node.children_without, List.map_eq_nil_iff, List.filter_eq_nil_iff]
  intro child hchild
  simpa using isOneOf_iff.mpr (h.2 child hchild)

-- Of a valid node only its children can be missed.
theorem fault?_without (h : node.Acceptable whitelist) :
    (node.without kinds).fault? whitelist = node.emptied? kinds := by
  have hid : WellFormedId (node.without kinds).id := by
    rw [id_without]
    exact h.id
  have hlisted : whitelist.get? (node.without kinds).kind.name =
      some (node.without kinds).kind.role := by
    rw [kind_without]
    exact h.listed
  rw [fault?_of_listed hid hlisted]
  cases node with
  | component c =>
    have hclean : (component c).markup? = none := markup?_eq_none_iff.mpr h.clean
    rw [← markup?_without kinds] at hclean
    exact hclean
  | layout id kind spacing children =>
    rw [without, ownFault?, allWithout_eq, emptied?]
    simp [List.filter_eq_nil_iff]

-- Below a component that goes there is no layout.
theorem filterMap_emptied?_of_isOneOf (h : node.isOneOf kinds = true) :
    node.walk.filterMap (emptied? kinds) = [] := by
  obtain ⟨c, rfl, -⟩ := isOneOf_iff.mp h
  rw [List.filterMap_eq_nil_iff]
  intro inner hinner
  rw [emptied?_eq_none_iff]
  rintro ⟨hrole, -⟩
  rw [role_of_mem_walk hinner] at hrole
  cases hrole

-- A scan of what is left finds the layouts that are emptied, in the order of the walk.
theorem filterMap_fault?_without (haccept : ∀ inner ∈ node.walk, inner.Acceptable whitelist) :
    (node.without kinds).walk.filterMap (fault? whitelist) =
      node.walk.filterMap (emptied? kinds) := by
  induction node using Node.induct with
  | step node ih =>
    obtain ⟨hnode, hbelow⟩ := node.forall_mem_walk.mp haccept
    have hchildren : ((node.without kinds).children.flatMap walk).filterMap (fault? whitelist) =
        (node.children.flatMap walk).filterMap (emptied? kinds) := by
      rw [Node.children_without, List.flatMap_map, List.filterMap_flatMap, List.filterMap_flatMap]
      apply flatMap_filter_eq
      · intro child hchild _
        exact ih child hchild (hbelow child hchild)
      · intro child _ hgone
        exact filterMap_emptied?_of_isOneOf (by simpa using hgone)
    rw [walk_eq, walk_eq node, List.filterMap_cons, List.filterMap_cons, fault?_without hnode,
      hchildren]

end Node

namespace Plan

variable {prior : Plan} {whitelist : Whitelist}

-- The wrapper is not among the layouts that are emptied: what takes its place is below it.
theorem filterMap_fault?_removeKinds (haccept : ∀ node ∈ prior.nodes, node.Acceptable whitelist)
    (kinds : List ComponentKind) :
    (removeKinds prior kinds).toNode.walk.filterMap (Node.fault? whitelist) =
      prior.nodes.filterMap (Node.emptied? kinds) := by
  rw [nodes, ← Node.filterMap_fault?_without haccept]
  rcases removeKinds_cases prior kinds with ⟨-, hroot⟩ | ⟨-, hchildren⟩
  · rw [hroot]
    rfl
  · have hbelow : (prior.root.toNode.without kinds).children =
        [(removeKinds prior kinds).toNode] := hchildren
    have hwrapper : (prior.root.toNode.without kinds).fault? whitelist = none := by
      rw [Node.fault?_without (haccept _ prior.root.toNode.mem_walk_self),
        Node.emptied?_eq_none_iff]
      intro hemptied
      rw [hemptied.children_without] at hbelow
      cases hbelow
    rw [Node.walk_eq (prior.root.toNode.without kinds), hbelow, List.flatMap_singleton,
      List.filterMap_cons_none hwrapper]

-- Checking what is left of a valid plan is a scan of the plan before for layouts that are emptied.
theorem validate_edit_removal (hvalid : prior.validate whitelist = .ok prior) (p : Placeholders)
    (kinds : List ComponentKind) :
    let out := prior.edit p { removals := kinds }
    out.validate whitelist = unlessFault (prior.nodes.findSome? (Node.emptied? kinds)) out := by
  intro out
  obtain ⟨haccept, hdistinct⟩ := validate_eq_ok_iff.mp hvalid
  have hscan : out.nodes.findSome? (Node.fault? whitelist) =
      prior.nodes.findSome? (Node.emptied? kinds) := by
    rw [← List.head?_filterMap, ← List.head?_filterMap, ← filterMap_fault?_removeKinds haccept]
    rfl
  have hrepeat : firstRepeated? [] out.nodes = none :=
    (firstRepeated?_eq_none_iff _ _).mpr
      ⟨nodup_kept hdistinct { removals := kinds }, fun _ _ => List.not_mem_nil⟩
  rw [validate_eq, hscan, hrepeat]
  cases prior.nodes.findSome? (Node.emptied? kinds) <;> rfl

-- A valid plan from which components are removed is valid again, unless a layout has lost all it
-- holds; then the first such layout in the walk of the plan before is reported.
theorem validate_removal_iff_emptied (hvalid : prior.validate whitelist = .ok prior)
    (p : Placeholders) (kinds : List ComponentKind) :
    let out := prior.edit p { removals := kinds }
    (out.validate whitelist = .ok out ∨ ∃ kind id,
      out.validate whitelist = .error (.structural .emptyLayout kind id)) ∧
    ((∃ fault, out.validate whitelist = .error fault) ↔
      ∃ node ∈ prior.nodes, node.EmptiedBy kinds) ∧
    ∀ fault, out.validate whitelist = .error fault ↔
      ∃ before node after, prior.nodes = before ++ node :: after ∧ node.EmptiedBy kinds ∧
        (∀ earlier ∈ before, ¬ earlier.EmptiedBy kinds) ∧
        .structural .emptyLayout node.kind.name node.id = fault := by
  intro out
  have hcheck : out.validate whitelist =
      unlessFault (prior.nodes.findSome? (Node.emptied? kinds)) out :=
    validate_edit_removal hvalid p kinds
  refine ⟨?_, ?_, fun fault => ?_⟩
  · cases hscan : prior.nodes.findSome? (Node.emptied? kinds) with
    | none => exact .inl (by rw [hcheck, hscan]; rfl)
    | some fault =>
      obtain ⟨node, -, hfault⟩ := List.exists_of_findSome?_eq_some hscan
      obtain ⟨-, rfl⟩ := Node.emptied?_eq_some_iff.mp hfault
      exact .inr ⟨node.kind.name, node.id, by rw [hcheck, hscan]; rfl⟩
  · simp only [hcheck, unlessFault_eq_error_iff, ← Option.ne_none_iff_exists', ne_eq,
      List.findSome?_eq_none_iff, Node.emptied?_eq_none_iff, not_forall, not_not, exists_prop]
  · rw [hcheck, unlessFault_eq_error_iff, List.findSome?_eq_some_iff]
    simp only [Node.emptied?_eq_some_iff, Node.emptied?_eq_none_iff]
    constructor
    · rintro ⟨before, node, after, hsplit, ⟨hemptied, hfault⟩, hbefore⟩
      exact ⟨before, node, after, hsplit, hemptied, hbefore, hfault⟩
    · rintro ⟨before, node, after, hsplit, hemptied, hbefore, hfault⟩
      exact ⟨before, node, after, hsplit, ⟨hemptied, hfault⟩, hbefore⟩

-- Two layouts with navigation only, next to a column with a card.
def navigationPage : Plan where
  modification := .create
  root := {
    id := "page"
    kind := .row
    spacing := {}
    children := [
      .layout "top" .column {} [.component ⟨"links", .navbar, [], []⟩],
      .layout "side" .grid {} [.component ⟨"tabs", .navbar, [], []⟩,
        .component ⟨"menu", .sidebar, [], []⟩],
      .layout "main" .column {} [.component ⟨"body", .card, [], []⟩]] }

-- Without navigation both are empty, and the column comes first. Without the sidebar none is.
theorem navigationPage_emptied :
    let out (kinds : List ComponentKind) := navigationPage.edit {} { removals := kinds }
    navigationPage.validate .full = .ok navigationPage ∧
    (out [.sidebar, .navbar]).validate .full = .error (.structural .emptyLayout "Column" "top") ∧
    (out [.sidebar]).validate .full = .ok (out [.sidebar]) := by
  intro out
  have hvalid : navigationPage.validate .full = .ok navigationPage := rfl
  have hfails := (validate_removal_iff_emptied hvalid {} [.sidebar, .navbar]).2.2
  have hdecides := validate_removal_iff_emptied hvalid {} [.sidebar]
  refine ⟨hvalid, (hfails _).mpr ⟨[navigationPage.root.toNode], _, _, rfl, ?_, ?_, rfl⟩, ?_⟩
  · exact (Node.emptied?_eq_some_iff.mp rfl).1
  · simpa using Node.emptied?_eq_none_iff.mp rfl
  · refine hdecides.1.resolve_right fun hfault => ?_
    obtain ⟨kind, id, hfault⟩ := hfault
    obtain ⟨node, hnode, hemptied⟩ := hdecides.2.1.mp ⟨_, hfault⟩
    have hnone : ∀ node ∈ navigationPage.nodes, node.emptied? [.sidebar] = none :=
      List.findSome?_eq_none_iff.mp rfl
    exact Node.emptied?_eq_none_iff.mp (hnone node hnode) hemptied

end Plan

end Wireframe
