import Wireframe.Proofs.Numbering
import Wireframe.Proofs.Validity

namespace Wireframe

namespace Node

structure Regular (node : Node) : Prop where
  numbered : node.Numbered
  id : WellFormedId node.id
  roomy : node.kind.role = .layout → node.id.length ≤ 128
  clean : node.markup? = none

-- A layout has children.
def Filled (node : Node) : Prop := node.kind.role = .layout → node.children ≠ []

end Node

-- A tree of which all nodes are regular.
def Layout.Regular (root : Layout) : Prop := ∀ node ∈ root.toNode.walk, node.Regular

theorem Layout.Regular.numbered {root : Layout} (h : root.Regular) : root.Numbered :=
  fun node hnode => (h node hnode).numbered

-- A tree without an empty layout.
def Layout.Filled (root : Layout) : Prop := ∀ node ∈ root.toNode.walk, node.Filled

namespace Plan

variable {whitelist : Whitelist} {plan : Plan}

theorem filled_of_validate (h : plan.validate whitelist = .ok plan) : plan.root.Filled :=
  fun node hnode => ((validate_eq_ok_iff.mp h).1 node hnode).filled

-- What a check can find in a regular plan.
theorem validate_of_regular (hregular : plan.root.Regular) :
    plan.validate whitelist = .ok plan ∨
    (∃ node ∈ plan.nodes, whitelist.allows node.kind = false ∧
      plan.validate whitelist = .error (.unknownKind node.kind.name node.id)) ∨
    (∃ node ∈ plan.nodes, ¬ node.Filled ∧
      plan.validate whitelist = .error (.structural .emptyLayout node.kind.name node.id)) := by
  generalize hresult : plan.validate whitelist = result
  cases Verdict.of_validate hresult with
  | accepted => exact .inl rfl
  | @defective before after node fault hsplit hbefore hdefect =>
    have hmem : node ∈ plan.nodes := by
      rw [hsplit]
      exact List.mem_append_right before List.mem_cons_self
    have hnode := hregular node hmem
    cases hdefect with
    | invalidId hid => exact absurd hnode.id hid
    | unknownKind hid hkind =>
      rw [ne_eq, ← whitelist.allows_iff, Bool.not_eq_true] at hkind
      exact .inr (.inl ⟨node, hmem, hkind, rfl⟩)
    | emptyLayout hid hkind hrole hchildren =>
      exact .inr (.inr ⟨node, hmem, fun hfilled => hfilled hrole hchildren, rfl⟩)
    | @forbiddenProp c key before after hid hkind hc hkeys hforbidden =>
      have hmem : key ∈ Json.keysInFields c.props := by
        rw [hkeys]
        exact List.mem_append_right before List.mem_cons_self
      exact absurd hforbidden (Node.markup?_eq_none_iff.mp hnode.clean c hc key hmem)
  | @repeated before after node haccept hsplit hbefore hrepeated =>
    have hnodup : plan.ids.Nodup := Node.nodup_ids fun node hnode => (hregular node hnode).numbered
    exact absurd hnodup (not_nodup_ids_of_split hsplit hrepeated)

end Plan

namespace Draft

-- What is built from the draft can go into a regular tree, whatever is below it.
structure Sound (draft : Draft) : Prop where
  filled : draft.kind.role = .layout → draft.children ≠ []
  few : draft.children.length ≤ numberBound
  clean : ∀ id, (draft.build id).markup? = none

-- A sound draft with at most so many levels below it.
def Fits : Nat → Draft → Prop
  | 0, draft => draft.Sound ∧ draft.children = []
  | depth + 1, draft => draft.Sound ∧ ∀ child ∈ draft.children, child.Fits depth

theorem Fits.succ {depth : Nat} {draft : Draft} (hfits : draft.Fits depth) :
    draft.Fits (depth + 1) := by
  induction depth generalizing draft with
  | zero =>
    refine ⟨hfits.1, fun child hchild => ?_⟩
    rw [hfits.2] at hchild
    cases hchild
  | succ depth ih => exact ⟨hfits.1, fun child hchild => ih (hfits.2 child hchild)⟩

theorem Fits.mono {depth more : Nat} {draft : Draft} (hfits : draft.Fits depth)
    (hle : depth ≤ more) : draft.Fits more := by
  induction hle with
  | refl => exact hfits
  | step _ ih => exact ih.succ

theorem Sound.filled_build {draft : Draft} (hsound : draft.Sound) (id : String) :
    (draft.build id).Filled := by
  intro hrole hchildren
  rw [kind_build] at hrole
  rw [children_build, List.map_eq_nil_iff, List.zipIdx_eq_nil_iff] at hchildren
  exact hsound.filled hrole hchildren

-- Each level makes the ids longer by 29 characters at most.
theorem Fits.build {depth : Nat} {draft : Draft} {id : String} (hfits : draft.Fits depth)
    (hid : WellFormedId id) (hroom : id.length + 29 * depth ≤ 256) :
    ∀ node ∈ (draft.build id).walk, WellFormedId node.id ∧ node.markup? = none ∧ node.Filled ∧
      node.id.length ≤ id.length + 29 * depth := by
  induction depth generalizing draft id with
  | zero =>
    have hnone : (draft.build id).children = [] := by rw [children_build, hfits.2]; rfl
    intro node hnode
    rw [Node.walk_eq, hnone, List.flatMap_nil, List.mem_singleton] at hnode
    subst hnode
    refine ⟨?_, hfits.1.clean id, hfits.1.filled_build id, ?_⟩
    · rwa [id_build]
    · rw [id_build]
      omega
  | succ depth ih =>
    rw [Node.forall_mem_walk]
    constructor
    · refine ⟨?_, hfits.1.clean id, hfits.1.filled_build id, ?_⟩
      · rwa [id_build]
      · rw [id_build]
        omega
    · intro child hchild
      rw [children_build] at hchild
      obtain ⟨⟨draftBelow, index⟩, hplace, rfl⟩ := List.mem_map.mp hchild
      obtain ⟨-, hindex, hget⟩ := List.mem_zipIdx hplace
      have hmem : draftBelow ∈ draft.children := List.fst_mem_of_mem_zipIdx hplace
      have hdigits : index < 10 ^ 20 := by
        have := hfits.1.few
        simp only [numberBound, UInt64.size] at this
        omega
      have hlength := length_nodeId_le id draftBelow.kind hdigits
      have hbelow : WellFormedId (nodeId (some id) draftBelow.kind index) :=
        wellFormedId_nodeId hid _ _ (by omega)
      intro node hnode
      obtain ⟨hnodeId, hclean, hfilled, hshort⟩ :=
        ih (hfits.2 draftBelow hmem) hbelow (by omega) node hnode
      exact ⟨hnodeId, hclean, hfilled, by omega⟩

end Draft

end Wireframe
