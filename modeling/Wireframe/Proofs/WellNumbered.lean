import Wireframe.Proofs.RegularEdit
import Wireframe.Template.Catalogue

namespace Wireframe

open Instruction (Addition Intent Request)

structure Plan.WellNumbered (plan : Plan) : Prop where
  distinct : plan.ids.Nodup
  numbered : ∀ node ∈ plan.nodes, ∀ child ∈ node.children,
    ∃ index, child.id = nodeId (some node.id) child.kind index

namespace Node

-- If all ids are different, those of siblings are.
theorem nodup_childIds {node inner : Node} (hdistinct : (node.walk.map id).Nodup)
    (hinner : inner ∈ node.walk) : (inner.children.map id).Nodup := by
  have hchildren : inner.children.Sublist inner.walk := by
    rw [walk_eq]
    exact (sublist_flatMap_walk inner.children).cons inner
  exact hdistinct.sublist ((hchildren.trans (walk_sublist_of_mem hinner)).map id)

end Node

-- It comes to the same whether all ids or only those of siblings are to be different.
theorem Plan.wellNumbered_iff {plan : Plan} : plan.WellNumbered ↔ plan.root.Numbered := by
  constructor
  · intro h node hnode
    exact ⟨h.numbered node hnode, Node.nodup_childIds h.distinct hnode⟩
  · intro h
    exact ⟨Node.nodup_ids h, fun node hnode => (h node hnode).numbered⟩

theorem Layout.Numbered.removeKinds {prior : Plan} (h : prior.root.Numbered)
    (kinds : List ComponentKind) : (removeKinds prior kinds).Numbered := by
  intro node hnode
  obtain ⟨inner, hinner, rfl⟩ := exists_of_mem_walk_removeKinds hnode
  exact (h inner hinner).without kinds

namespace Layout

variable {root : Layout} {taken : List String}

theorem Numbered.appendAll (p : Placeholders) {additions : List Addition} (h : root.Numbered)
    (htakes : root.Takes taken) : (appendAll p root taken additions).Numbered := by
  induction additions generalizing root taken with
  | nil => exact h
  | cons addition rest ih =>
    let draft := additionDraft p addition
    obtain ⟨number, hid, hfree, -⟩ :=
      htakes.nextFreeId (.component draft.kind) root.children.length
    let id := nodeId (some root.id) (.component draft.kind) number
    have hpart : (draft.build id).id = id := draft.id_build id
    have htakes' := htakes.append (draft.build id)
    rw [hpart] at htakes'
    rw [Wireframe.appendAll, hid]
    exact ih (h.append draft number hfree) htakes'

end Layout

namespace Plan

-- What a removal leaves is numbered with gaps; a new part takes a number that no sibling has.
theorem WellNumbered.edit {prior : Plan} (h : prior.WellNumbered) (p : Placeholders)
    (request : Request) : (prior.edit p request).WellNumbered := by
  have hleft := (wellNumbered_iff.mp h).removeKinds request.removals
  exact wellNumbered_iff.mpr (hleft.appendAll p (Layout.takes_ids hleft .edit))

theorem wellNumbered_build (draft : LayoutDraft) (modification : Modification) :
    (Plan.mk modification draft.build).WellNumbered :=
  wellNumbered_iff.mpr draft.numbered_build

theorem wellNumbered_of_synthesize {p : Placeholders} {intent : Intent} {root : Layout}
    (hroot : Template.synthesize p intent = .ok root) (modification : Modification) :
    (Plan.mk modification root).WellNumbered := by
  rw [Template.synthesize] at hroot
  cases hdraft : Template.draft p intent with
  | error fault =>
    rw [hdraft] at hroot
    cases hroot
  | ok draft =>
    rw [hdraft] at hroot
    obtain rfl : (Template.spaced p draft).build = root := Except.ok.inj hroot
    exact wellNumbered_build _ modification

-- The plan after some edits, the first one first. Each has the sample content of its time.
def editAll (plan : Plan) (edits : List (Placeholders × Request)) : Plan :=
  edits.foldl (fun plan edit => plan.edit edit.1 edit.2) plan

theorem WellNumbered.editAll {plan : Plan} (h : plan.WellNumbered)
    (edits : List (Placeholders × Request)) : (plan.editAll edits).WellNumbered := by
  induction edits generalizing plan with
  | nil => exact h
  | cons edit rest ih => exact ih (h.edit edit.1 edit.2)

-- Plans are drawn well-numbered, an edit keeps them so, and so no session comes to two nodes with
-- the same id.
theorem session_wellNumbered :
    (∀ p intent root modification, Template.synthesize p intent = .ok root →
      (Plan.mk modification root).WellNumbered) ∧
    (∀ (prior : Plan) p request, prior.WellNumbered → (prior.edit p request).WellNumbered) ∧
    ∀ p intent root modification edits, Template.synthesize p intent = .ok root →
      ((Plan.mk modification root).editAll edits).ids.Nodup :=
  ⟨fun _ _ _ modification hroot => wellNumbered_of_synthesize hroot modification,
    fun _ p request h => h.edit p request,
    fun _ _ _ modification edits hroot =>
      ((wellNumbered_of_synthesize hroot modification).editAll edits).distinct⟩

end Plan

end Wireframe
