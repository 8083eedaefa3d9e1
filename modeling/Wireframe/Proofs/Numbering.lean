import Wireframe.Plan.Draft
import Wireframe.Proofs.NodeId
import Wireframe.Proofs.Tree

namespace Wireframe

structure Node.Numbered (node : Node) : Prop where
  numbered : ∀ child ∈ node.children, ∃ index, child.id = nodeId (some node.id) child.kind index
  distinct : (node.children.map Node.id).Nodup

-- A tree of which all nodes are numbered.
def Layout.Numbered (root : Layout) : Prop := ∀ node ∈ root.toNode.walk, node.Numbered

namespace Node

theorem idWithin_of_mem_walk {node inner : Node} (hall : ∀ inner ∈ node.walk, inner.Numbered)
    (hinner : inner ∈ node.walk) : IdWithin node.id inner.id := by
  induction node using Node.induct with
  | step node ih =>
    obtain ⟨hnode, hbelow⟩ := node.forall_mem_walk.mp hall
    rcases mem_walk.mp hinner with rfl | ⟨child, hchild, hin⟩
    · exact .refl _
    · obtain ⟨index, hid⟩ := hnode.numbered child hchild
      have hfirst : IdWithin node.id child.id := by
        rw [hid]
        exact idWithin_nodeId ..
      exact hfirst.trans (ih child hchild (hbelow child hchild) hin)

-- Below a node all ids are longer than its own.
theorem length_id_lt {node child inner : Node} (hall : ∀ inner ∈ node.walk, inner.Numbered)
    (hchild : child ∈ node.children) (hinner : inner ∈ child.walk) :
    node.id.length < inner.id.length := by
  obtain ⟨hnode, hbelow⟩ := node.forall_mem_walk.mp hall
  obtain ⟨index, hid⟩ := hnode.numbered child hchild
  have hlonger := length_lt_nodeId node.id child.kind index
  rw [← hid] at hlonger
  exact Nat.lt_of_lt_of_le hlonger (idWithin_of_mem_walk (hbelow child hchild) hinner).length_le

-- The ids below different children have nothing to do with each other.
theorem eq_of_idWithin_below {tree child other a b : Node}
    (hall : ∀ inner ∈ tree.walk, inner.Numbered) (hchild : child ∈ tree.children)
    (hother : other ∈ tree.children) (ha : a ∈ child.walk) (hb : b ∈ other.walk)
    (hwithin : IdWithin a.id b.id) : child = other := by
  obtain ⟨htree, hbelow⟩ := tree.forall_mem_walk.mp hall
  obtain ⟨i, hi⟩ := htree.numbered child hchild
  obtain ⟨j, hj⟩ := htree.numbered other hother
  have hfirst := (idWithin_of_mem_walk (hbelow child hchild) ha).trans hwithin
  have hsecond := idWithin_of_mem_walk (hbelow other hother) hb
  rw [hi] at hfirst
  rw [hj] at hsecond
  apply List.inj_on_of_nodup_map htree.distinct hchild hother
  rw [hi, hj, eq_of_idWithin hfirst hsecond]

-- If siblings have different ids, all nodes have.
theorem nodup_ids {node : Node} (hall : ∀ inner ∈ node.walk, inner.Numbered) :
    (node.walk.map Node.id).Nodup := by
  induction node using Node.induct with
  | step node ih =>
    obtain ⟨hnode, hbelow⟩ := node.forall_mem_walk.mp hall
    rw [walk_eq, List.map_cons, List.map_flatMap, List.nodup_cons, List.nodup_flatMap]
    refine ⟨?_, fun child hchild => ih child hchild (hbelow child hchild), ?_⟩
    · intro hmem
      obtain ⟨child, hchild, hid⟩ := List.mem_flatMap.mp hmem
      obtain ⟨inner, hinner, hsame⟩ := List.mem_map.mp hid
      have hlonger := length_id_lt hall hchild hinner
      rw [hsame] at hlonger
      omega
    · have hpairs : node.children.Pairwise fun a b => a.id ≠ b.id :=
        List.pairwise_map.mp hnode.distinct
      refine hpairs.imp_of_mem fun {a b} ha hb hne => ?_
      -- an id that is in both walks would lie within the ids of both children
      intro id hida hidb
      obtain ⟨x, hx, hxid⟩ := List.mem_map.mp hida
      obtain ⟨y, hy, hyid⟩ := List.mem_map.mp hidb
      have hwithin : IdWithin x.id y.id := by
        rw [hxid, hyid]
        exact .refl id
      obtain rfl := eq_of_idWithin_below hall ha hb hx hy hwithin
      exact hne rfl

-- A node whose id lies within that of another one is below it.
theorem mem_walk_of_idWithin {tree a b : Node} (hall : ∀ inner ∈ tree.walk, inner.Numbered)
    (ha : a ∈ tree.walk) (hb : b ∈ tree.walk) (hwithin : IdWithin a.id b.id) : b ∈ a.walk := by
  induction tree using Node.induct with
  | step tree ih =>
    rcases mem_walk.mp ha with rfl | ⟨child, hchild, hina⟩
    · exact hb
    · rcases mem_walk.mp hb with rfl | ⟨other, hother, hinb⟩
      · have hlonger := length_id_lt hall hchild hina
        have hshorter := hwithin.length_le
        omega
      · obtain rfl := eq_of_idWithin_below hall hchild hother hina hinb hwithin
        exact ih child hchild ((tree.forall_mem_walk.mp hall).2 child hchild) hina hinb

-- An id within one that a child of a node could have shows that there is this child.
theorem exists_child_of_idWithin {tree node inner : Node} {kind : Kind} {index : Nat}
    (hall : ∀ inner ∈ tree.walk, inner.Numbered) (hnode : node ∈ tree.walk)
    (hinner : inner ∈ tree.walk) (hwithin : IdWithin (nodeId (some node.id) kind index) inner.id) :
    ∃ child ∈ node.children, child.kind = kind ∧ child.id = nodeId (some node.id) kind index := by
  have hbelow : inner ∈ node.walk :=
    mem_walk_of_idWithin hall hnode hinner ((idWithin_nodeId node.id kind index).trans hwithin)
  have hallBelow : ∀ inner ∈ node.walk, inner.Numbered := fun inner hin =>
    hall inner ((walk_sublist_of_mem hnode).subset hin)
  rcases mem_walk.mp hbelow with rfl | ⟨child, hchild, hin⟩
  · have hlonger := length_lt_nodeId inner.id kind index
    have hshorter := hwithin.length_le
    omega
  · obtain ⟨i, hchildId⟩ := (hall node hnode).numbered child hchild
    have hself := idWithin_of_mem_walk
      ((node.forall_mem_walk.mp hallBelow).2 child hchild) hin
    rw [hchildId] at hself
    have hsame := eq_of_idWithin hself hwithin
    exact ⟨child, hchild, (nodeId_injective node.id hsame).1, hchildId.trans hsame⟩

-- An id that a child could have is that of a child, wherever in the tree it is found.
theorem exists_child_of_id_eq {node inner : Node} {kind : Kind} {index : Nat}
    (hall : ∀ inner ∈ node.walk, inner.Numbered) (hinner : inner ∈ node.walk)
    (hid : inner.id = nodeId (some node.id) kind index) :
    ∃ child ∈ node.children, child.id = inner.id := by
  have hwithin : IdWithin (nodeId (some node.id) kind index) inner.id := by
    rw [← hid]
    exact .refl _
  obtain ⟨child, hchild, -, hchildId⟩ :=
    exists_child_of_idWithin hall node.mem_walk_self hinner hwithin
  exact ⟨child, hchild, hchildId.trans hid.symm⟩

end Node

namespace ComponentDraft

@[simp] theorem id_build (id : String) (draft : ComponentDraft) : (draft.build id).id = id := by
  cases draft
  rfl

@[simp] theorem kind_build (id : String) (draft : ComponentDraft) :
    (draft.build id).kind = draft.kind := by
  cases draft
  rfl

end ComponentDraft

namespace Draft

def children : Draft → List Draft
  | layout _ _ children => children
  | component draft => draft.children.map component

-- The children of what is built are numbered by their places.
def buildNth (parent : String) (place : Draft × Nat) : Node :=
  place.1.build (nodeId (some parent) place.1.kind place.2)

theorem componentBuildAll_eq (parent : String) (index : Nat) (drafts : List ComponentDraft) :
    (ComponentDraft.buildAll parent index drafts).map Node.component =
      ((drafts.map component).zipIdx index).map (buildNth parent) := by
  induction drafts generalizing index with
  | nil => rfl
  | cons draft rest ih =>
    rw [ComponentDraft.buildAll, List.map_cons, ih, List.map_cons, List.zipIdx_cons, List.map_cons]
    rfl

theorem buildAll_eq (parent : String) (index : Nat) (drafts : List Draft) :
    buildAll parent index drafts = (drafts.zipIdx index).map (buildNth parent) := by
  induction drafts generalizing index with
  | nil => rfl
  | cons draft rest ih =>
    rw [buildAll, ih, List.zipIdx_cons, List.map_cons]
    rfl

@[simp] theorem id_build (id : String) (draft : Draft) : (draft.build id).id = id := by
  cases draft with
  | layout kind spacing children => rfl
  | component draft => exact draft.id_build id

@[simp] theorem kind_build (id : String) (draft : Draft) : (draft.build id).kind = draft.kind := by
  cases draft with
  | layout kind spacing children => rfl
  | component draft => exact congrArg Kind.component (draft.kind_build id)

theorem children_build (id : String) (draft : Draft) :
    (draft.build id).children = draft.children.zipIdx.map (buildNth id) := by
  cases draft with
  | layout kind spacing children => exact buildAll_eq id 0 children
  | component draft =>
    obtain ⟨kind, props, children⟩ := draft
    exact componentBuildAll_eq id 0 children

theorem numbered_build (id : String) (draft : Draft) : (draft.build id).Numbered := by
  have hid : ∀ place : Draft × Nat,
      (buildNth id place).id = nodeId (some id) place.1.kind place.2 := fun place =>
    id_build ..
  constructor
  · intro child hchild
    rw [children_build] at hchild
    obtain ⟨place, -, rfl⟩ := List.mem_map.mp hchild
    exact ⟨place.2, by rw [hid, id_build, buildNth, kind_build]⟩
  · rw [children_build, List.map_map]
    -- the numbers alone tell the ids apart
    have hnumbers : (draft.children.zipIdx.map (·.2)).Nodup := by
      rw [List.zipIdx_map_snd]
      exact List.nodup_range' 1
    refine (List.pairwise_map.mp hnumbers).map _ fun a b hne hsame => hne ?_
    rw [Function.comp, Function.comp, hid, hid] at hsame
    exact (nodeId_injective id hsame).2

-- What holds of everything that is built from a draft holds in the walk of what is built.
theorem exists_build_of_mem_walk {id : String} {draft : Draft} {node : Node}
    (hnode : node ∈ (draft.build id).walk) :
    ∃ (innerId : String) (inner : Draft), node = inner.build innerId := by
  generalize htree : draft.build id = tree at hnode
  induction tree using Node.induct generalizing draft id with
  | step tree ih =>
    subst htree
    rcases Node.mem_walk.mp hnode with rfl | ⟨child, hchild, hin⟩
    · exact ⟨id, draft, rfl⟩
    · rw [children_build] at hchild
      obtain ⟨place, hplace, rfl⟩ := List.mem_map.mp hchild
      have hmem : buildNth id place ∈ (draft.build id).children := by
        rw [children_build]
        exact List.mem_map_of_mem hplace
      exact ih _ hmem rfl hin

-- A tree that is built from a draft is numbered throughout.
theorem numbered_of_mem_walk_build {id : String} {draft : Draft} {node : Node}
    (hnode : node ∈ (draft.build id).walk) : node.Numbered := by
  obtain ⟨innerId, inner, rfl⟩ := exists_build_of_mem_walk hnode
  exact numbered_build innerId inner

end Draft

namespace LayoutDraft

theorem toNode_build (draft : LayoutDraft) :
    draft.build.toNode = draft.toDraft.build (nodeId none (.layout draft.kind) 0) := rfl

theorem numbered_build (draft : LayoutDraft) : draft.build.Numbered := by
  rw [Layout.Numbered, toNode_build]
  exact fun node hnode => Draft.numbered_of_mem_walk_build hnode

end LayoutDraft

end Wireframe
