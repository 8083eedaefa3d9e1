import Wireframe.Proofs.Elision

namespace Wireframe

namespace Node

variable {kinds others : List ComponentKind}

@[simp] theorem isOneOf_without (node : Node) :
    (node.without kinds).isOneOf others = node.isOneOf others := by
  rw [← isOneOf_bare, bare_without, isOneOf_bare]

theorem isOneOf_append (node : Node) :
    node.isOneOf (kinds ++ others) = (node.isOneOf kinds || node.isOneOf others) := by
  cases node with
  | layout => rfl
  | component c => simp [isOneOf]

theorem isOneOf_congr (hsame : ∀ kind, kind ∈ kinds ↔ kind ∈ others) (node : Node) :
    node.isOneOf kinds = node.isOneOf others := by
  rw [Bool.eq_iff_iff, isOneOf_iff, isOneOf_iff]
  simp only [hsame]

-- Only which kinds go matters, not how they are listed.
theorem without_congr (hsame : ∀ kind, kind ∈ kinds ↔ kind ∈ others) (node : Node) :
    node.without kinds = node.without others := by
  induction node using Node.induct with
  | step node ih =>
    apply eq_of_bare_eq
    · rw [bare_without, bare_without]
    · simp only [children_without, isOneOf_congr hsame]
      exact List.map_congr_left fun child hchild => ih child (List.mem_filter.mp hchild).1

theorem without_without (node : Node) :
    (node.without kinds).without others = node.without (kinds ++ others) := by
  induction node using Node.induct with
  | step node ih =>
    apply eq_of_bare_eq
    · rw [bare_without, bare_without, bare_without]
    · simp only [children_without, List.filter_map, List.filter_filter, List.map_map, isOneOf_append,
        Bool.not_or, Function.comp_def, isOneOf_without, Bool.and_comm]
      exact List.map_congr_left fun child hchild => ih child (List.mem_filter.mp hchild).1

end Node

mutual

-- The components that hang from layouts, in the order of the walk.
def Node.parts : Node → List Component
  | .layout _ _ _ children => Node.allParts children
  | .component c => [c]

def Node.allParts : List Node → List Component
  | [] => []
  | node :: rest => node.parts ++ Node.allParts rest

end

def Layout.parts (root : Layout) : List Component := root.toNode.parts

namespace Node

theorem allParts_eq (nodes : List Node) : allParts nodes = nodes.flatMap parts := by
  induction nodes with
  | nil => rfl
  | cons node rest ih => rw [allParts, ih, List.flatMap_cons]

-- A removal takes the parts that go and goes on inside the others.
theorem parts_without {kinds : List ComponentKind} {node : Node}
    (hstays : node.isOneOf kinds = false) :
    (node.without kinds).parts = Component.allWithout kinds node.parts := by
  induction node using Node.induct with
  | step node ih =>
    cases node with
    | component c =>
      have hkind : kinds.contains c.kind = false := hstays
      rw [without, parts, parts, Component.allWithout, hkind]
      rfl
    | layout id kind spacing children =>
      rw [without, parts, parts, allParts_eq, allParts_eq, allWithout_eq, Component.allWithout_eq,
        List.flatMap_map, List.filter_flatMap, List.map_flatMap]
      apply flatMap_filter_eq
      · intro child hchild hkept
        rw [ih child hchild (by simpa using hkept), Component.allWithout_eq]
      · intro child _ hgone
        obtain ⟨c, rfl, hkind⟩ := isOneOf_iff.mp (by simpa using hgone)
        simp [parts, hkind]

end Node

namespace Layout

-- What is left of a layout when some wrappers are taken off it, or none: it is the layout, or what is
-- left of its only child.
inductive UnwrapsTo : Layout → Layout → Prop where
  | refl (root : Layout) : UnwrapsTo root root
  | step {outer middle inner : Layout} :
    outer.children = [middle.toNode] → UnwrapsTo middle inner → UnwrapsTo outer inner

variable {outer middle inner : Layout} {kinds : List ComponentKind}

theorem UnwrapsTo.trans (h : outer.UnwrapsTo middle) (h' : middle.UnwrapsTo inner) :
    outer.UnwrapsTo inner := by
  induction h with
  | refl => exact h'
  | step hchildren _ ih => exact .step hchildren (ih h')

theorem children_without_of_eq_singleton (h : outer.children = [middle.toNode]) :
    (outer.without kinds).children = [(middle.without kinds).toNode] := by
  rw [Layout.without, Node.allWithout_eq, h]
  rfl

theorem UnwrapsTo.without (h : outer.UnwrapsTo inner) (kinds : List ComponentKind) :
    (outer.without kinds).UnwrapsTo (inner.without kinds) := by
  induction h with
  | refl root => exact .refl _
  | step hchildren _ ih => exact .step (children_without_of_eq_singleton hchildren) ih

theorem UnwrapsTo.parts_eq (h : outer.UnwrapsTo inner) : inner.parts = outer.parts := by
  induction h with
  | refl => rfl
  | @step outer middle inner hchildren _ ih =>
    have honly : outer.parts = [middle.toNode].flatMap Node.parts := by
      rw [← hchildren, ← Node.allParts_eq]
      rfl
    rw [ih, honly, List.flatMap_singleton]
    rfl

-- A wrapper in which nothing goes holds a layout in which nothing goes.
theorem UnwrapsTo.without_eq_self (h : outer.UnwrapsTo inner) (hsame : outer.without kinds = outer) :
    inner.without kinds = inner := by
  induction h with
  | refl => exact hsame
  | @step outer middle inner hchildren _ ih =>
    apply ih
    have hreduced : (outer.without kinds).children = [(middle.without kinds).toNode] :=
      children_without_of_eq_singleton hchildren
    rw [hsame, hchildren] at hreduced
    exact (toNode_injective (List.singleton_inj.mp hreduced)).symm

theorem without_without (root : Layout) (kinds others : List ComponentKind) :
    (root.without kinds).without others = root.without (kinds ++ others) :=
  toNode_injective root.toNode.without_without

theorem without_congr {others : List ComponentKind} (hsame : ∀ kind, kind ∈ kinds ↔ kind ∈ others)
    (root : Layout) : root.without kinds = root.without others :=
  toNode_injective (root.toNode.without_congr hsame)

end Layout

namespace Plan

variable {prior out : Plan} {kinds : List ComponentKind}

-- The root of a plan is what is left of another one's when components of these kinds are gone and some
-- wrappers are taken off.
def Reduces (prior : Plan) (kinds : List ComponentKind) (out : Plan) : Prop :=
  (prior.root.without kinds).UnwrapsTo out.root

theorem unwrapsTo_removeKinds (prior : Plan) (kinds : List ComponentKind) :
    (prior.root.without kinds).UnwrapsTo (removeKinds prior kinds) := by
  rcases removeKinds_cases prior kinds with ⟨-, hroot⟩ | ⟨-, hchildren⟩
  · rw [hroot]
    exact .refl _
  · exact .step hchildren (.refl _)

-- The plan after some removals, the first one first.
def removeAll (prior : Plan) (p : Placeholders) (batches : List (List ComponentKind)) : Plan :=
  batches.foldl (fun plan kinds => plan.edit p { removals := kinds }) prior

theorem Reduces.edit (h : prior.Reduces kinds out) (p : Placeholders) (more : List ComponentKind) :
    prior.Reduces (kinds ++ more) (out.edit p { removals := more }) := by
  have hmore := h.without more
  rw [Layout.without_without] at hmore
  exact hmore.trans (unwrapsTo_removeKinds out more)

theorem Reduces.removeAll (h : prior.Reduces kinds out) (p : Placeholders)
    (batches : List (List ComponentKind)) :
    prior.Reduces (kinds ++ batches.flatten) (out.removeAll p batches) := by
  induction batches generalizing kinds out with
  | nil => rwa [List.flatten_nil, List.append_nil]
  | cons batch rest ih =>
    rw [List.flatten_cons, ← List.append_assoc]
    exact ih (h.edit p batch)

-- However the kinds come, in which batches and in which order, the same is reduced.
theorem reduces_removeAll (prior : Plan) (p : Placeholders) {batches : List (List ComponentKind)}
    (hsame : ∀ kind, kind ∈ kinds ↔ ∃ batch ∈ batches, kind ∈ batch) :
    prior.Reduces kinds (prior.removeAll p batches) := by
  have hnone : prior.Reduces [] prior := by
    rw [Reduces, Layout.without_nil]
    exact .refl _
  have hall := hnone.removeAll p batches
  rw [List.nil_append] at hall
  rwa [Reduces, Layout.without_congr fun kind => (hsame kind).trans List.mem_flatten.symm]

theorem Reduces.parts_eq (h : prior.Reduces kinds out) :
    out.root.parts = Component.allWithout kinds prior.root.parts := by
  have hparts : (prior.root.toNode.without kinds).parts =
      Component.allWithout kinds prior.root.toNode.parts := Node.parts_without rfl
  exact (Layout.UnwrapsTo.parts_eq h).trans hparts

theorem losesChild_self (prior : Plan) : losesChild prior ⟨.edit, prior.root⟩ = false := by
  have hfresh : (Plan.mk .edit prior.root).modification ≠ .regenerate := nofun
  rw [← Bool.not_eq_true, losesChild_iff hfresh]
  rintro ⟨child, hchild, hgone⟩
  exact hgone (List.mem_map_of_mem (Node.mem_walk_of_child hchild child.mem_walk_self))

-- Where nothing goes, the wrapper stays.
theorem removeKinds_eq_self (hsame : prior.root.without kinds = prior.root) :
    removeKinds prior kinds = prior.root := by
  have hnone : survivor? prior prior.root = none := by
    unfold survivor?
    split
    · rw [losesChild_self, Bool.and_false]
      rfl
    · rfl
  rw [removeKinds, hsame, hnone]
  cases kinds.isEmpty <;> rfl

theorem without_removeKinds (prior : Plan) (kinds : List ComponentKind) :
    (removeKinds prior kinds).without kinds = removeKinds prior kinds := by
  apply (unwrapsTo_removeKinds prior kinds).without_eq_self
  rw [Layout.without_without]
  exact Layout.without_congr (fun kind => by rw [List.mem_append, or_self]) prior.root

-- Removing kinds in turn, in the other order or all at once leaves the same parts, which are those of
-- the plan before without what goes; the rest of the tree is the same up to wrappers. Removing
-- the same kinds once more changes nothing at all.
theorem removeAll_confluent (prior : Plan) (p : Placeholders) :
    (∀ first second both : List ComponentKind,
      (∀ kind, kind ∈ both ↔ kind ∈ first ∨ kind ∈ second) →
      ∀ batches ∈ [[first, second], [second, first], [both]],
        (prior.removeAll p batches).root.parts = Component.allWithout both prior.root.parts ∧
          (prior.root.without both).UnwrapsTo (prior.removeAll p batches).root) ∧
    ∀ kinds, prior.removeAll p [kinds, kinds] = prior.removeAll p [kinds] := by
  constructor
  · intro first second both hboth batches hbatches
    have hsame : ∀ kind, kind ∈ both ↔ ∃ batch ∈ batches, kind ∈ batch := by
      intro kind
      simp only [List.mem_cons, List.not_mem_nil, or_false] at hbatches
      rcases hbatches with rfl | rfl | rfl
      · simp [hboth]
      · simp [hboth, or_comm]
      · simp
    have hreduces := prior.reduces_removeAll p hsame
    exact ⟨hreduces.parts_eq, hreduces⟩
  · intro kinds
    have hagain : removeKinds ⟨.edit, removeKinds prior kinds⟩ kinds = removeKinds prior kinds :=
      removeKinds_eq_self (without_removeKinds prior kinds)
    exact congrArg (Plan.mk .edit) hagain

-- A sidebar next to a column with a navigation bar and a row with a card.
def nestedPage : LayoutDraft where
  kind := .row
  children := [
    .component { kind := .sidebar },
    .layout .column {} [
      .component { kind := .navbar }, .layout .row {} [.component { kind := .card }]]]

-- Without sidebar and then without navigation bar it comes down to the inner row, and at once only to
-- the column. The card is the same.
theorem nestedPage_confluent :
    let prior : Plan := ⟨.create, nestedPage.build⟩
    let inTurn := prior.removeAll {} [[.sidebar], [.navbar]]
    let atOnce := prior.removeAll {} [[.navbar, .sidebar, .navbar]]
    inTurn.root.id = "row-0.column-1.row-1" ∧ atOnce.root.id = "row-0.column-1" ∧
    inTurn.root.parts = [⟨"row-0.column-1.row-1.card-0", .card, [], []⟩] ∧
    inTurn.root.parts = atOnce.root.parts := by
  intro prior inTurn atOnce
  have hsame : ∀ kind : ComponentKind, kind ∈ [ComponentKind.navbar, .sidebar, .navbar] ↔
      kind ∈ [ComponentKind.sidebar] ∨ kind ∈ [ComponentKind.navbar] := by
    intro kind
    cases kind <;> decide
  have hconfluent := (removeAll_confluent prior {}).1 [.sidebar] [.navbar] _ hsame
  have hinTurn := (hconfluent [[.sidebar], [.navbar]] List.mem_cons_self).1
  have hatOnce := (hconfluent [[.navbar, .sidebar, .navbar]] (by simp)).1
  exact ⟨by decide, by decide, hinTurn, hinTurn.trans hatOnce.symm⟩

end Plan

end Wireframe
