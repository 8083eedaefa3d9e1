import Mathlib.Data.List.Flatten
import Wireframe.Plan.Basic

namespace Wireframe

-- The definitions recurse on layouts and on components apart. Seen through their children, nodes
-- of either sort take one induction.
theorem Component.induct {motive : Component → Prop}
    (step : ∀ c : Component, (∀ child ∈ c.children, motive child) → motive c) :
    ∀ c, motive c
  | ⟨id, kind, props, children⟩ =>
    step ⟨id, kind, props, children⟩ fun child (_ : child ∈ children) =>
      Component.induct step child
termination_by c => sizeOf c
decreasing_by
  have hlt := List.sizeOf_lt_of_mem ‹child ∈ children›
  simp only [Component.mk.sizeOf_spec]
  omega

-- From the children of a node to the node.
theorem Node.induct {motive : Node → Prop}
    (step : ∀ node : Node, (∀ child ∈ node.children, motive child) → motive node) :
    ∀ node, motive node
  | .component c => by
    refine Component.induct (motive := fun c => motive (.component c)) (fun c ih => ?_) c
    apply step
    intro child hchild
    obtain ⟨part, hpart, rfl⟩ := List.mem_map.mp hchild
    exact ih part hpart
  | .layout id kind spacing children =>
    step (.layout id kind spacing children) fun child (_ : child ∈ children) =>
      Node.induct step child
termination_by node => sizeOf node
decreasing_by
  have hlt := List.sizeOf_lt_of_mem ‹child ∈ children›
  simp only [Node.layout.sizeOf_spec]
  omega

theorem Component.walkAll_eq (parts : List Component) :
    Component.walkAll parts = parts.flatMap Component.walk := by
  induction parts with
  | nil => rfl
  | cons c rest ih => rw [Component.walkAll, ih, List.flatMap_cons]

theorem Node.walkAll_eq (nodes : List Node) : Node.walkAll nodes = nodes.flatMap Node.walk := by
  induction nodes with
  | nil => rfl
  | cons node rest ih => rw [Node.walkAll, ih, List.flatMap_cons]

theorem Layout.toNode_injective {a b : Layout} (h : a.toNode = b.toNode) : a = b := by
  obtain ⟨id, kind, spacing, children⟩ := a
  obtain ⟨id', kind', spacing', children'⟩ := b
  obtain ⟨rfl, rfl, rfl, rfl⟩ := Node.layout.inj h
  rfl

theorem Component.walk_eq (c : Component) :
    c.walk = .component c :: c.children.flatMap Component.walk := by
  cases c
  rw [Component.walk, Component.walkAll_eq]

-- A node comes before the walks of its children.
theorem Node.walk_eq (node : Node) : node.walk = node :: node.children.flatMap Node.walk := by
  cases node with
  | layout id kind spacing children => rw [Node.walk, Node.walkAll_eq, Node.children]
  | component c =>
    rw [Node.walk, Component.walk_eq, Node.children, List.flatMap_map]
    rfl

theorem Node.mem_walk_self (node : Node) : node ∈ node.walk := by
  rw [Node.walk_eq]
  exact List.mem_cons_self

theorem Node.mem_walk {node inner : Node} :
    inner ∈ node.walk ↔ inner = node ∨ ∃ child ∈ node.children, inner ∈ child.walk := by
  rw [Node.walk_eq, List.mem_cons, List.mem_flatMap]

theorem Node.mem_walk_of_child {node child inner : Node} (hchild : child ∈ node.children)
    (hinner : inner ∈ child.walk) : inner ∈ node.walk :=
  Node.mem_walk.mpr (.inr ⟨child, hchild, hinner⟩)

-- What holds of a node and in the walks of its children holds in its walk.
theorem Node.forall_mem_walk {P : Node → Prop} (node : Node) :
    (∀ inner ∈ node.walk, P inner) ↔
      P node ∧ ∀ child ∈ node.children, ∀ inner ∈ child.walk, P inner := by
  rw [Node.walk_eq, List.forall_mem_cons]
  constructor
  · rintro ⟨hnode, hbelow⟩
    exact ⟨hnode, fun child hchild inner hinner =>
      hbelow inner (List.mem_flatMap.mpr ⟨child, hchild, hinner⟩)⟩
  · rintro ⟨hnode, hbelow⟩
    refine ⟨hnode, fun inner hinner => ?_⟩
    obtain ⟨child, hchild, hin⟩ := List.mem_flatMap.mp hinner
    exact hbelow child hchild inner hin

theorem Node.sublist_flatMap_walk (nodes : List Node) : nodes.Sublist (nodes.flatMap Node.walk) := by
  have hself : ∀ node ∈ nodes, [node].Sublist node.walk := fun node _ =>
    List.singleton_sublist.mpr node.mem_walk_self
  simpa using List.Sublist.flatMap_right nodes hself

-- The walk of an inner node is part of the walk.
theorem Node.walk_sublist_of_mem {node inner : Node} (hinner : inner ∈ node.walk) :
    inner.walk.Sublist node.walk := by
  induction node using Node.induct with
  | step node ih =>
    rcases Node.mem_walk.mp hinner with rfl | ⟨child, hchild, hin⟩
    · exact .refl _
    · rw [Node.walk_eq node]
      have hwithin : child.walk.Sublist (node.children.flatMap Node.walk) := by
        simpa using (List.singleton_sublist.mpr hchild).flatMap Node.walk
      exact ((ih child hchild hin).trans hwithin).cons node

end Wireframe
