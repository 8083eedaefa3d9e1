import Mathlib.Data.List.Perm.Subperm
import Wireframe.Proofs.Difference
import Wireframe.Proofs.Fingerprint

namespace Wireframe

namespace Json

-- The values under a key are equal, or there are none on both sides.
def AgreeAt (before after : Json) (key : String) : Prop :=
  Option.Rel (fun a b => a.same b = true) (before.field? key) (after.field? key)

variable {before after : Fields} {key : String}

theorem agreeAt_object_iff : (object before).AgreeAt (object after) key ↔
    Option.Rel (fun a b => a.same b = true) (before.get? key) (after.get? key) :=
  Iff.rfl

theorem agreeAt_of_notMem (hbefore : key ∉ before.keys) (hafter : key ∉ after.keys) :
    (object before).AgreeAt (object after) key := by
  rw [agreeAt_object_iff, Ledger.get?_eq_none_iff.mpr hbefore, Ledger.get?_eq_none_iff.mpr hafter]
  exact .none

theorem AgreeAt.mem_keys_iff (h : (object before).AgreeAt (object after) key) :
    key ∈ before.keys ↔ key ∈ after.keys := by
  rw [agreeAt_object_iff] at h
  rw [← not_iff_not, ← Ledger.get?_eq_none_iff, ← Ledger.get?_eq_none_iff]
  cases hbefore : before.get? key <;> cases hafter : after.get? key <;> simp_all

theorem sameFields_iff_agreeAt (hkeys : before.keys.Nodup) :
    sameFields before after = true ↔
      ∀ key ∈ before.keys, (object before).AgreeAt (object after) key := by
  rw [sameFields_iff, Ledger.keys, List.forall_mem_map]
  refine forall₂_congr fun entry hentry => ?_
  rw [agreeAt_object_iff, (Ledger.get?_eq_some_iff hkeys).mpr hentry]
  cases after.get? entry.1 <;> simp

-- Objects are equal if they agree at every key, those included that only one of them has.
theorem same_object_iff (hbefore : before.keys.Nodup) (hafter : after.keys.Nodup) :
    (object before).same (object after) = true ↔
      ∀ key, (object before).AgreeAt (object after) key := by
  rw [same, Bool.and_eq_true, beq_iff_eq, sameFields_iff_agreeAt hbefore]
  constructor
  · rintro ⟨hlength, hagree⟩ key
    have hsubset : before.keys ⊆ after.keys := fun k hk => (hagree k hk).mem_keys_iff.mp hk
    have hperm : before.keys.Perm after.keys :=
      (List.subperm_of_subset hbefore hsubset).perm_of_length_le (by simp [Ledger.keys, hlength])
    by_cases hmem : key ∈ before.keys
    · exact hagree key hmem
    · exact agreeAt_of_notMem hmem (mt hperm.mem_iff.mpr hmem)
  · intro hagree
    have hperm : before.keys.Perm after.keys :=
      (List.perm_ext_iff_of_nodup hbefore hafter).mpr fun key => (hagree key).mem_keys_iff
    exact ⟨by simpa [Ledger.keys] using hperm.length_eq, fun key _ => hagree key⟩

end Json

namespace Difference

variable {s t : String} {texts : List String}

theorem mem_insertSorted : t ∈ insertSorted s texts ↔ t = s ∨ t ∈ texts := by
  induction texts with
  | nil => simp [insertSorted]
  | cons first rest ih =>
    rw [insertSorted]
    by_cases heq : s = first
    · simp [heq]
    · by_cases hlt : s < first
      · simp [heq, hlt]
      · simp [heq, hlt, ih, or_left_comm]

theorem pairwise_insertSorted (h : texts.Pairwise (· < ·)) :
    (insertSorted s texts).Pairwise (· < ·) := by
  induction texts with
  | nil => exact List.pairwise_singleton _ _
  | cons first rest ih =>
    obtain ⟨hfirst, hrest⟩ := List.pairwise_cons.mp h
    rw [insertSorted]
    by_cases heq : s = first
    · rwa [if_pos (beq_iff_eq.mpr heq)]
    · rw [if_neg (by simpa using heq)]
      by_cases hlt : s < first
      · rw [if_pos hlt]
        refine List.pairwise_cons.mpr ⟨?_, h⟩
        exact List.forall_mem_cons.mpr ⟨hlt, fun t ht => String.lt_trans hlt (hfirst t ht)⟩
      · rw [if_neg hlt]
        refine List.pairwise_cons.mpr ⟨fun t ht => ?_, ih hrest⟩
        rcases mem_insertSorted.mp ht with rfl | hmem
        · exact Std.lt_of_le_of_ne (String.not_lt.mp hlt) (Ne.symm heq)
        · exact hfirst t hmem

theorem mem_sortedOnce : t ∈ sortedOnce texts ↔ t ∈ texts := by
  induction texts with
  | nil => simp [sortedOnce]
  | cons first rest ih =>
    rw [sortedOnce, List.foldr_cons, ← sortedOnce, mem_insertSorted, ih, List.mem_cons]

theorem pairwise_sortedOnce : (sortedOnce texts).Pairwise (· < ·) := by
  induction texts with
  | nil => exact .nil
  | cons first rest ih => exact pairwise_insertSorted ih

-- The keys at which two values do not agree, in ascending order.
structure ListsDifferences (before after : Json) (keys : List String) : Prop where
  ascending : keys.Pairwise (· < ·)
  exact : ∀ key, key ∈ keys ↔ ¬ before.AgreeAt after key

theorem sameEntry_iff {before after : Option Json} :
    sameEntry before after = true ↔ Option.Rel (fun a b => a.same b = true) before after := by
  cases before <;> cases after <;> simp [sameEntry]

theorem listsDifferences_changedKeys (before after : Fields) :
    ListsDifferences (.object before) (.object after) (changedKeys before after) where
  ascending := pairwise_sortedOnce
  exact key := by
    rw [changedKeys, mem_sortedOnce, List.mem_filter, Bool.not_eq_true', ← Bool.not_eq_true,
      sameEntry_iff, ← Json.agreeAt_object_iff, List.mem_append]
    refine and_iff_right_of_imp fun hdiffer => ?_
    by_contra hneither
    rw [not_or] at hneither
    exact hdiffer (Json.agreeAt_of_notMem hneither.1 hneither.2)

theorem ListsDifferences.eq_nil_iff {before after : Json} {keys : List String}
    (h : ListsDifferences before after keys) : keys = [] ↔ ∀ key, before.AgreeAt after key := by
  simp [List.eq_nil_iff_forall_not_mem, h.exact]

theorem exists_props_eq_object (node : Node) : ∃ fields, node.props = .object fields := by
  cases node with
  | layout id kind spacing children => exact ⟨_, rfl⟩
  | component c => exact ⟨c.props, rfl⟩

end Difference

theorem Plan.DistinctKeys.props {plan : Plan} {node : Node} (h : plan.DistinctKeys)
    (hnode : node ∈ plan.nodes) : node.props.Distinct := by
  cases node with
  | layout id kind spacing children => exact Json.inherited_distinct.spacing spacing
  | component c => exact h c hnode

namespace Difference

theorem describeChange_updated (before after : Fields) :
    describeChange (.updated (.object before) (.object after)) =
      if changedKeys before after = [] then "props changed"
      else String.intercalate ", " (changedKeys before after) ++ " changed" := by
  simp only [describeChange, entriesOf, Json.object?, Option.getD_some]
  cases changedKeys before after with
  | nil => rfl
  | cons key keys => rfl

-- An update is from the last node with the id to the last one, which are written differently.
theorem of_get?_updated {prior current : Plan} {id : String} {change : NodeChange}
    (hfresh : current.modification ≠ .regenerate)
    (hchange : (between (some prior) current).changes.get? id = some change)
    (hupdated : change.change.sort = .updated) :
    ∃ old now, prior.last? id = some old ∧ current.last? id = some now ∧
      change = ⟨now.kind, .updated old.props now.props⟩ ∧
      old.props.compact ≠ now.props.compact := by
  have hmem : id ∈ (between (some prior) current).idsOf .updated := by
    rw [mem_idsOf_iff hfresh, ← get?_changes hfresh]
    exact ⟨change, hchange, hupdated⟩
  simp only [mem_idsOf_cases hfresh, reduceCtorEq, false_and, false_or, true_and] at hmem
  obtain ⟨old, now, hold, hnow, hwritten⟩ := hmem
  rw [get?_changes hfresh, Option.bind_some, hold, hnow, Node.fate?, if_neg hwritten,
    Option.some.injEq] at hchange
  exact ⟨old, now, hold, hnow, hchange.symm, hwritten⟩

-- The line about an updated node names the keys at which its props differ. There is no key to name
-- exactly if the props are equal and only their texts are not.
theorem describe_updated {prior current : Plan} {id : String} {change : NodeChange}
    (hfresh : current.modification ≠ .regenerate) (hprior : prior.DistinctKeys)
    (hcurrent : current.DistinctKeys)
    (hchange : (between (some prior) current).changes.get? id = some change)
    (hupdated : change.change.sort = .updated) :
    ∃ old now keys, prior.last? id = some old ∧ current.last? id = some now ∧
      change = ⟨now.kind, .updated old.props now.props⟩ ∧
      ListsDifferences old.props now.props keys ∧
      describe id change = id ++ " (" ++ now.kind.name ++ "): " ++
        (if keys = [] then "props changed" else String.intercalate ", " keys ++ " changed") ∧
      (keys = [] ↔ old.props.same now.props = true ∧ old.props.compact ≠ now.props.compact) := by
  obtain ⟨old, now, hold, hnow, rfl, hwritten⟩ := of_get?_updated hfresh hchange hupdated
  have hbefore := hprior.props (Plan.mem_nodes_of_last? hold).1
  have hafter := hcurrent.props (Plan.mem_nodes_of_last? hnow).1
  obtain ⟨before, hbeforeProps⟩ := exists_props_eq_object old
  obtain ⟨after, hafterProps⟩ := exists_props_eq_object now
  rw [hbeforeProps] at hbefore hwritten
  rw [hafterProps] at hafter hwritten
  have hlists := listsDifferences_changedKeys before after
  refine ⟨old, now, changedKeys before after, hold, hnow, rfl, ?_⟩
  have hnone : changedKeys before after = [] ↔ (Json.object before).same (.object after) = true :=
    hlists.eq_nil_iff.trans (Json.same_object_iff hbefore.fields.1 hafter.fields.1).symm
  rw [hbeforeProps, hafterProps, describe, describeChange_updated]
  exact ⟨hlists, rfl, hnone.trans (and_iff_left hwritten).symm⟩

-- Props with an object in them, and the same value with its keys the other way round and the other
-- zero.
def placeProps : Fields := [("at", .object [("x", .float (.zero false)), ("y", .int 1)])]

def turnedPlaceProps : Fields := [("at", .object [("y", .int 1), ("x", .float (.zero true))])]

theorem turnedPlace_described :
    ∃ change, (Plan.pageWith turnedPlaceProps).modification ≠ .regenerate ∧
      (Plan.pageWith placeProps).DistinctKeys ∧ (Plan.pageWith turnedPlaceProps).DistinctKeys ∧
      (between (some (.pageWith placeProps)) (.pageWith turnedPlaceProps)).changes.get? "b" =
        some change ∧
      change.change.sort = .updated ∧ describe "b" change = "b (Text): props changed" := by
  have hfresh : (Plan.pageWith turnedPlaceProps).modification ≠ .regenerate := by decide
  have hplace : (Plan.pageWith placeProps).DistinctKeys := by
    refine Plan.distinctKeys_pageWith (.object (by decide) ?_)
    exact List.forall_mem_singleton.mpr (.object (by decide) (by simpa using ⟨.float _, .int 1⟩))
  have hturned : (Plan.pageWith turnedPlaceProps).DistinctKeys := by
    refine Plan.distinctKeys_pageWith (.object (by decide) ?_)
    exact List.forall_mem_singleton.mpr (.object (by decide) (by simpa using ⟨.int 1, .float _⟩))
  have hchange :
      (between (some (.pageWith placeProps)) (.pageWith turnedPlaceProps)).changes.get? "b" =
        some ⟨.component .text, .updated (.object placeProps) (.object turnedPlaceProps)⟩ := by
    rw [get?_changes hfresh]
    rfl
  refine ⟨_, hfresh, hplace, hturned, hchange, rfl, ?_⟩
  obtain ⟨old, now, keys, -, -, hprops, -, hline, hnone⟩ :=
    describe_updated hfresh hplace hturned hchange rfl
  rw [NodeChange.mk.injEq, Change.updated.injEq] at hprops
  obtain ⟨hkind, hold, hnow⟩ := hprops
  have hkeys : keys = [] := by
    rw [hnone, ← hold, ← hnow]
    decide
  rw [hline, if_pos hkeys, ← hkind]
  rfl

-- A line about the key "props" alone reads as if there were none to name.
example : changedKeys [] [("props", .null)] = ["props"] ∧
    describeChange (.updated (.object []) (.object [("props", .null)])) = "props changed" := by
  decide

end Difference

end Wireframe
