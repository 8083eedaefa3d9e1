import Mathlib.Data.List.Pairwise
import Wireframe.Proofs.Clash
import Wireframe.Proofs.Difference
import Wireframe.Proofs.EditDifference

namespace Wireframe

-- With each id once, a child has another id than its parent.
theorem Node.id_ne_of_child {tree child : Node} (hdistinct : (tree.walk.map Node.id).Nodup)
    (hchild : child ∈ tree.children) : child.id ≠ tree.id := by
  rw [walk_eq, List.map_cons, List.nodup_cons] at hdistinct
  intro hsame
  refine hdistinct.1 (hsame ▸ List.mem_map_of_mem ?_)
  exact List.mem_flatMap.mpr ⟨child, hchild, child.mem_walk_self⟩

-- With each id once, the trees of two children have no id in common.
theorem Node.disjoint_ids_of_children {tree a b : Node} (hdistinct : (tree.walk.map Node.id).Nodup)
    (ha : a ∈ tree.children) (hb : b ∈ tree.children) (hne : a ≠ b) :
    List.Disjoint (a.walk.map Node.id) (b.walk.map Node.id) := by
  rw [walk_eq, List.map_cons, List.nodup_cons, List.map_flatMap, List.nodup_flatMap] at hdistinct
  have hsymm : Std.Symm (Function.onFun List.Disjoint fun child : Node => child.walk.map Node.id) :=
    ⟨fun _ _ hdisjoint _ hleft hright => hdisjoint hright hleft⟩
  exact hdistinct.2.2.forall ha hb hne

-- With each id once, the id of a child that goes is nowhere in what is left.
theorem Node.id_notMem_without_of_child {tree child : Node} {kinds : List ComponentKind}
    (hdistinct : (tree.walk.map Node.id).Nodup) (hchild : child ∈ tree.children)
    (hgone : child.isOneOf kinds = true) : child.id ∉ (tree.without kinds).walk.map Node.id := by
  intro hmem
  obtain ⟨left, hleft, hid⟩ := List.mem_map.mp hmem
  rcases mem_walk.mp hleft with rfl | ⟨reduced, hreduced, hin⟩
  · rw [id_without] at hid
    exact id_ne_of_child hdistinct hchild hid.symm
  · rw [children_without] at hreduced
    obtain ⟨other, hother, rfl⟩ := List.mem_map.mp hreduced
    obtain ⟨hother, hstays⟩ := List.mem_filter.mp hother
    obtain ⟨inner, hinner, rfl⟩ := exists_of_mem_walk_without hin
    have hne : other ≠ child := by
      rintro rfl
      simp [hgone] at hstays
    refine disjoint_ids_of_children hdistinct hother hchild hne (List.mem_map_of_mem hinner) ?_
    rw [← inner.id_without kinds, hid]
    exact List.mem_map_of_mem child.mem_walk_self

-- Some child is gone if its id is.
theorem losesChild_iff {prior stripped : Plan} (hfresh : stripped.modification ≠ .regenerate) :
    losesChild prior stripped = true ↔ ∃ child ∈ prior.root.children, child.id ∉ stripped.ids := by
  rw [losesChild, List.any_eq_true]
  refine exists_congr fun child => and_congr_right fun hchild => ?_
  have hnode : child ∈ prior.root.toNode.walk := Node.mem_walk_of_child hchild child.mem_walk_self
  have hmem : child.id ∈ prior.ids := List.mem_map_of_mem hnode
  obtain ⟨old, hold⟩ := Plan.exists_last?_iff.mpr hmem
  simp only [Difference.get?_changes hfresh, Option.bind_some, hold]
  rw [← Plan.last?_eq_none_iff]
  cases stripped.last? child.id with
  | none => simp [Node.fate?, Change.sort]
  | some now =>
    by_cases hprops : old.props.compact = now.props.compact <;>
      simp [Node.fate?, Change.sort, hprops]

namespace Plan

variable {prior : Plan} {kinds : List ComponentKind}

-- The root's children are a layout and one or more components of the given kinds.
def Wraps (prior : Plan) (kinds : List ComponentKind) (survivor : Layout) : Prop :=
  ∃ before after, prior.root.children = before ++ survivor.toNode :: after ∧ before ++ after ≠ [] ∧
    ∀ child ∈ before ++ after, ∃ c, child = .component c ∧ c.kind ∈ kinds

variable {survivor : Layout}

theorem Wraps.mem_children (h : prior.Wraps kinds survivor) :
    survivor.toNode ∈ prior.root.children := by
  obtain ⟨before, after, hsplit, -, -⟩ := h
  rw [hsplit]
  exact List.mem_append_right _ List.mem_cons_self

theorem Wraps.two_le_length (h : prior.Wraps kinds survivor) :
    2 ≤ prior.root.children.length := by
  obtain ⟨before, after, hsplit, hmore, -⟩ := h
  have hpos := List.length_pos_of_ne_nil hmore
  rw [List.length_append] at hpos
  rw [hsplit, List.length_append, List.length_cons]
  omega

theorem Wraps.exists_isOneOf (h : prior.Wraps kinds survivor) :
    ∃ child ∈ prior.root.children, child.isOneOf kinds = true := by
  obtain ⟨before, after, hsplit, hmore, hgone⟩ := h
  obtain ⟨child, hchild⟩ := List.exists_mem_of_ne_nil _ hmore
  refine ⟨child, ?_, Node.isOneOf_iff.mpr (hgone child hchild)⟩
  rw [hsplit]
  rcases List.mem_append.mp hchild with h | h
  · exact List.mem_append_left _ h
  · exact List.mem_append_right _ (List.mem_cons_of_mem _ h)

theorem Wraps.children_without (h : prior.Wraps kinds survivor) :
    (prior.root.without kinds).children = [(survivor.without kinds).toNode] := by
  obtain ⟨before, after, hsplit, -, hgone⟩ := h
  have hdrop (child : Node) (hchild : child ∈ before ++ after) :
      ¬ (!child.isOneOf kinds) = true := by
    simpa using Node.isOneOf_iff.mpr (hgone child hchild)
  have hbefore : before.filter (fun child => !child.isOneOf kinds) = [] :=
    List.filter_eq_nil_iff.mpr fun child hchild => hdrop child (List.mem_append_left _ hchild)
  have hafter : after.filter (fun child => !child.isOneOf kinds) = [] :=
    List.filter_eq_nil_iff.mpr fun child hchild => hdrop child (List.mem_append_right _ hchild)
  have hstays : survivor.toNode.isOneOf kinds = false := rfl
  rw [Layout.without, Node.allWithout_eq, hsplit, List.filter_append, hbefore, List.nil_append,
    List.filter_cons, hstays, hafter]
  rfl

-- Where a single layout is left of two or more children, the others were components that go.
theorem wraps_of_children_without (hmany : 2 ≤ prior.root.children.length)
    (hleft : (prior.root.without kinds).children = [survivor.toNode]) :
    ∃ original, prior.Wraps kinds original ∧ original.without kinds = survivor := by
  rw [Layout.without, Node.allWithout_eq, List.map_eq_singleton_iff] at hleft
  obtain ⟨kept, hkept, hreduced⟩ := hleft
  obtain ⟨before, after, hsplit, hbefore, -, hafter⟩ := List.filter_eq_cons_iff.mp hkept
  rw [List.filter_eq_nil_iff] at hafter
  cases kept with
  | component c => cases hreduced
  | layout id kind spacing children =>
    refine ⟨⟨id, kind, spacing, children⟩, ⟨before, after, hsplit, ?_, ?_⟩,
      Layout.toNode_injective hreduced⟩
    · intro hnone
      obtain ⟨rfl, rfl⟩ := List.append_eq_nil_iff.mp hnone
      simp [hsplit] at hmany
    · intro child hchild
      apply Node.isOneOf_iff.mp
      rcases List.mem_append.mp hchild with hchild | hchild
      · simpa using hbefore child hchild
      · simpa using hafter child hchild

theorem survivor?_eq_some_iff (hdistinct : prior.ids.Nodup) {promoted : Layout} :
    survivor? prior (prior.root.without kinds) = some promoted ↔
      ∃ survivor, prior.Wraps kinds survivor ∧ survivor.without kinds = promoted := by
  constructor
  · intro h
    have hleft := children_of_survivor? h
    unfold survivor? at h
    split at h
    · obtain ⟨hdecided, -⟩ := Option.ite_none_right_eq_some.mp h
      exact wraps_of_children_without (by simpa using (Bool.and_eq_true_iff.mp hdecided).1) hleft
    · cases h
  · rintro ⟨survivor, hwraps, rfl⟩
    obtain ⟨child, hchild, hgone⟩ := hwraps.exists_isOneOf
    let stripped : Plan := ⟨.edit, prior.root.without kinds⟩
    have hfresh : stripped.modification ≠ .regenerate := nofun
    have habsent : child.id ∉ (prior.root.toNode.without kinds).walk.map Node.id :=
      Node.id_notMem_without_of_child hdistinct hchild hgone
    have hlost : losesChild prior stripped = true :=
      (losesChild_iff hfresh).mpr ⟨child, hchild, habsent⟩
    unfold survivor?
    rw [hwraps.children_without]
    simp only [Layout.toNode, hwraps.two_le_length, decide_true, Bool.true_and]
    exact if_pos hlost

theorem Wraps.kinds_ne_nil (h : prior.Wraps kinds survivor) : kinds ≠ [] := by
  rintro rfl
  obtain ⟨child, -, hgone⟩ := h.exists_isOneOf
  obtain ⟨c, -, hkind⟩ := Node.isOneOf_iff.mp hgone
  cases hkind

theorem removeKinds_of_wraps (hdistinct : prior.ids.Nodup) (h : prior.Wraps kinds survivor) :
    removeKinds prior kinds = survivor.without kinds := by
  have hsome := (survivor?_eq_some_iff hdistinct).mpr ⟨survivor, h, rfl⟩
  have hkinds : kinds.isEmpty = false := by simpa using h.kinds_ne_nil
  simp [removeKinds, hkinds, hsome]

theorem removeKinds_of_not_wraps (hdistinct : prior.ids.Nodup)
    (h : ¬ ∃ survivor, prior.Wraps kinds survivor) :
    removeKinds prior kinds = prior.root.without kinds := by
  have hnone : survivor? prior (prior.root.without kinds) = none := by
    rw [Option.eq_none_iff_forall_ne_some]
    intro promoted hsome
    obtain ⟨survivor, hwraps, -⟩ := (survivor?_eq_some_iff hdistinct).mp hsome
    exact h ⟨survivor, hwraps⟩
  simp [removeKinds, hnone]

-- The decision, which looks for lost ids in the whole tree, is that of a look at the root's children.
-- Where they are a layout and components that go, this layout becomes the root; otherwise the root
-- stays. Either keeps all but what is removed below it.
theorem root_edit_iff_wraps {prior : Plan} (hdistinct : prior.ids.Nodup) (p : Placeholders)
    (kinds : List ComponentKind) :
    let root := (prior.edit p { removals := kinds }).root
    (∀ promoted, survivor? prior (prior.root.without kinds) = some promoted ↔
      ∃ survivor, prior.Wraps kinds survivor ∧ survivor.without kinds = promoted) ∧
    (root.id ≠ prior.root.id ↔ ∃ survivor, prior.Wraps kinds survivor) ∧
    (∀ survivor, prior.Wraps kinds survivor →
      root = { survivor with children := Node.allWithout kinds survivor.children }) ∧
    ((¬ ∃ survivor, prior.Wraps kinds survivor) →
      root = { prior.root with children := Node.allWithout kinds prior.root.children }) := by
  intro root
  refine ⟨fun promoted => survivor?_eq_some_iff hdistinct, ⟨fun hid => ?_, ?_⟩,
    fun survivor => removeKinds_of_wraps hdistinct, removeKinds_of_not_wraps hdistinct⟩
  · by_contra hnone
    have hroot : root = prior.root.without kinds := removeKinds_of_not_wraps hdistinct hnone
    exact hid (by rw [hroot]; rfl)
  · rintro ⟨survivor, hwraps⟩
    have hroot : root = survivor.without kinds := removeKinds_of_wraps hdistinct hwraps
    have hid : survivor.toNode.id ≠ prior.root.toNode.id :=
      Node.id_ne_of_child hdistinct hwraps.mem_children
    rw [hroot]
    exact hid

-- The column next to the sidebar takes the place of the row when the sidebar goes, and not when the
-- navigation bar in the column goes.
theorem framedPage_wraps :
    let prior : Plan := ⟨.create, Difference.framedPage.build⟩
    prior.ids.Nodup ∧ (∃ survivor, prior.Wraps [.sidebar] survivor) ∧
    (prior.edit {} { removals := [.sidebar] }).root.id = "row-0.column-1" ∧
    ¬ ∃ survivor, prior.Wraps [.navbar] survivor := by
  intro prior
  have hdistinct : prior.ids.Nodup := by decide
  have hsidebar := root_edit_iff_wraps hdistinct {} [.sidebar]
  have hnavbar := root_edit_iff_wraps hdistinct {} [.navbar]
  refine ⟨hdistinct, hsidebar.2.1.mp (by decide), by decide, fun hwraps => ?_⟩
  exact hnavbar.2.1.mpr hwraps (by decide)

end Plan

end Wireframe
