import Wireframe.Plan.Difference
import Wireframe.Proofs.Ledger

namespace Wireframe

-- The last node with an id.
def Plan.last? (plan : Plan) (id : String) : Option Node := plan.nodes.findRev? (·.id == id)

-- The same change seen from the other plan.
def Change.reverse : Change → Change
  | added props => removed props
  | removed props => added props
  | updated before after => updated after before
  | unchanged before after => unchanged after before

-- What becomes of an id, from the nodes that have it in the plan before and in the current one.
def Node.fate? : Option Node → Option Node → Option NodeChange
  | none, none => none
  | none, some now => some ⟨now.kind, .added now.props⟩
  | some old, none => some ⟨old.kind, .removed old.props⟩
  | some old, some now =>
    some ⟨now.kind,
      if old.props.compact = now.props.compact then .unchanged old.props now.props
      else .updated old.props now.props⟩

theorem Change.ofProps_eq (before after : Json) :
    ofProps before after =
      if before.compact = after.compact then unchanged before after else updated before after := by
  simp only [ofProps, beq_iff_eq]

theorem Node.fate?_swap (old now : Option Node) :
    (fate? now old).map (·.change) = (fate? old now).map (·.change.reverse) := by
  cases old with
  | none => cases now <;> rfl
  | some old =>
    cases now with
    | none => rfl
    | some now =>
      by_cases h : old.props.compact = now.props.compact
      · simp [fate?, h, Change.reverse]
      · simp [fate?, h, Ne.symm h, Change.reverse]

namespace Plan

theorem keys_appearances (plan : Plan) : plan.appearances.keys = plan.ids.eraseDups := by
  rw [appearances, Ledger.keys_ofList, List.map_map, ids]
  rfl

theorem get?_appearances (plan : Plan) (id : String) :
    plan.appearances.get? id = (plan.last? id).map fun node => ⟨node.kind, node.props⟩ := by
  rw [appearances, Ledger.get?_ofList, last?, List.findRev?_eq_find?_reverse,
    List.findRev?_eq_find?_reverse, ← List.map_reverse, List.find?_map, Option.map_map]
  rfl

theorem last?_eq_none_iff {plan : Plan} {id : String} : plan.last? id = none ↔ id ∉ plan.ids := by
  rw [last?, List.findRev?_eq_find?_reverse, List.find?_eq_none, ids, List.mem_map]
  simp

theorem mem_nodes_of_last? {plan : Plan} {id : String} {node : Node} (h : plan.last? id = some node) :
    node ∈ plan.nodes ∧ node.id = id := by
  rw [last?, List.findRev?_eq_find?_reverse] at h
  exact ⟨List.mem_reverse.mp (List.mem_of_find?_eq_some h), by simpa using List.find?_some h⟩

theorem exists_last?_iff {plan : Plan} {id : String} :
    (∃ node, plan.last? id = some node) ↔ id ∈ plan.ids := by
  rw [← not_not (a := id ∈ plan.ids), ← last?_eq_none_iff, ← Option.ne_none_iff_exists']

end Plan

namespace Difference

variable (before after : Ledger Appearance)

-- The entry of a node that is gone.
def removal (_id : String) (old : Appearance) : NodeChange := ⟨old.kind, .removed old.props⟩

theorem changesBetween_eq :
    changesBetween before after =
      (after.map fun entry => (entry.1, changeOf before entry.1 entry.2)) ++
        (before.filter fun entry => !after.contains entry.1).map fun entry =>
          (entry.1, removal entry.1 entry.2) :=
  rfl

theorem keys_changesBetween :
    Ledger.keys (changesBetween before after) =
      after.keys ++ before.keys.filter fun id => !after.contains id := by
  rw [changesBetween_eq, Ledger.keys, List.map_append, List.map_map, List.map_map, Ledger.keys,
    Ledger.keys, List.filter_map]
  rfl

-- An id that the current nodes have is compared, and another one is looked up among those before.
theorem get?_changesBetween (id : String) :
    Ledger.get? (changesBetween before after) id =
      ((after.get? id).map (changeOf before id)).or
        (if after.contains id then none else (before.get? id).map (removal id)) := by
  rw [changesBetween_eq, Ledger.get?_append, Ledger.get?_map, Ledger.get?_map,
    Ledger.get?_filter fun key => !after.contains key]
  cases after.contains id <;> rfl

variable {previous : Option Plan} {current : Plan}

theorem between_of_ne (hfresh : current.modification ≠ .regenerate) :
    between previous current =
      let changes := changesBetween ((previous.map Plan.appearances).getD []) current.appearances
      ⟨current.modification, Ledger.keys (changes.filter fun entry => isChange entry.2), changes⟩ := by
  rw [between]
  split
  · next h => exact absurd h hfresh
  · rfl

theorem get?_previous (previous : Option Plan) (id : String) :
    Ledger.get? ((previous.map Plan.appearances).getD []) id =
      (previous.bind (·.last? id)).map fun node => ⟨node.kind, node.props⟩ := by
  cases previous with
  | none => rfl
  | some prior => exact prior.get?_appearances id

theorem get?_changes (hfresh : current.modification ≠ .regenerate) (id : String) :
    (between previous current).changes.get? id =
      Node.fate? (previous.bind (·.last? id)) (current.last? id) := by
  rw [between_of_ne hfresh]
  simp only [get?_changesBetween, Ledger.contains, current.get?_appearances, Option.isSome_map]
  have hbefore := get?_previous previous id
  cases current.last? id with
  | none =>
    cases hold : previous.bind (·.last? id) with
    | none => simp [hbefore, hold, Node.fate?]
    | some old => simp [hbefore, hold, Node.fate?, removal]
  | some now =>
    cases hold : previous.bind (·.last? id) with
    | none => simp [changeOf, hbefore, hold, Node.fate?]
    | some old => simp [changeOf, hbefore, hold, Node.fate?, Change.ofProps_eq]

-- The current ids come first, and then those that only the plan before has.
theorem keys_changes (hfresh : current.modification ≠ .regenerate) :
    Ledger.keys (between previous current).changes =
      current.ids.eraseDups ++
        ((previous.map Plan.ids).getD []).eraseDups.filter fun id => !current.ids.contains id := by
  have hbefore : Ledger.keys ((previous.map Plan.appearances).getD []) =
      ((previous.map Plan.ids).getD []).eraseDups := by
    cases previous with
    | none => rfl
    | some prior => exact prior.keys_appearances
  have hcontains : ∀ id, current.appearances.contains id = current.ids.contains id := by
    intro id
    rw [Bool.eq_iff_iff, ← Bool.not_eq_false, Ledger.contains_eq_false_iff, not_not,
      current.keys_appearances, List.mem_eraseDups, List.contains_iff_mem]
  rw [between_of_ne hfresh]
  simp only [keys_changesBetween, hbefore, current.keys_appearances, hcontains]

theorem nodup_keys_changes (hfresh : current.modification ≠ .regenerate) :
    (Ledger.keys (between previous current).changes).Nodup := by
  rw [keys_changes hfresh, List.nodup_append']
  refine ⟨Ledger.nodup_eraseDups _, (Ledger.nodup_eraseDups _).filter _, ?_⟩
  intro id hcurrent hgone
  have hnone := (List.mem_filter.mp hgone).2
  rw [List.mem_eraseDups] at hcurrent
  simp [hcurrent] at hnone

-- The ids of a sort are those that have come to such an end.
theorem mem_idsOf_iff (hfresh : current.modification ≠ .regenerate) (sort : ChangeSort)
    (id : String) :
    id ∈ (between previous current).idsOf sort ↔
      ∃ change, Node.fate? (previous.bind (·.last? id)) (current.last? id) = some change ∧
        change.change.sort = sort := by
  have honce : (Ledger.keys (between previous current).changes).Nodup := nodup_keys_changes hfresh
  have hmem := Ledger.mem_keys_filter honce (fun change => change.change.sort == sort) id
  simp only [beq_iff_eq, get?_changes hfresh] at hmem
  exact hmem

-- An id that only one plan has is added or removed. One that both have is updated or unchanged, as the
-- props of the two nodes say.
theorem mem_idsOf_cases {prior : Plan} (hfresh : current.modification ≠ .regenerate)
    (sort : ChangeSort) (id : String) :
    id ∈ (between (some prior) current).idsOf sort ↔
      (sort = .added ∧ id ∉ prior.ids ∧ id ∈ current.ids) ∨
      (sort = .removed ∧ id ∈ prior.ids ∧ id ∉ current.ids) ∨
      ∃ old now, prior.last? id = some old ∧ current.last? id = some now ∧
        (sort = .unchanged ∧ old.props.compact = now.props.compact ∨
          sort = .updated ∧ old.props.compact ≠ now.props.compact) := by
  rw [mem_idsOf_iff hfresh, Option.bind_some, ← not_not (a := id ∈ current.ids),
    ← not_not (a := id ∈ prior.ids), ← Plan.last?_eq_none_iff, ← Plan.last?_eq_none_iff]
  cases prior.last? id with
  | none => cases current.last? id <;> simp [Node.fate?, Change.sort, eq_comm]
  | some old =>
    cases current.last? id with
    | none => simp [Node.fate?, Change.sort, eq_comm]
    | some now =>
      by_cases h : old.props.compact = now.props.compact <;>
        simp [Node.fate?, Change.sort, h, eq_comm]

-- Every entry is of one of the four sorts.
theorem length_changes_eq (difference : Difference) :
    difference.changes.length =
      (difference.idsOf .added).length + (difference.idsOf .removed).length +
        (difference.idsOf .updated).length + (difference.idsOf .unchanged).length := by
  obtain ⟨modification, changed, changes⟩ := difference
  simp only [idsOf, Ledger.keys, List.length_map, ← List.countP_eq_length_filter]
  induction changes with
  | nil => rfl
  | cons entry rest ih =>
    simp only [List.countP_cons, List.length_cons]
    cases entry.2.change.sort <;> simp <;> omega

-- A change adds one to the counter of its sort and leaves the others alone.
theorem get_add (summary : Summary) (sort other : ChangeSort) :
    (summary.add sort).get other = summary.get other + if sort == other then 1 else 0 := by
  cases sort <;> cases other <;> simp [Summary.add, Summary.get]

theorem get_foldl_add (summary : Summary) (changes : Ledger NodeChange) (sort : ChangeSort) :
    (changes.foldl (fun summary entry => summary.add entry.2.change.sort) summary).get sort =
      summary.get sort + .ofNat (changes.countP fun entry => entry.2.change.sort == sort) := by
  induction changes generalizing summary with
  | nil => simp
  | cons entry rest ih =>
    rw [List.foldl_cons, ih, get_add, List.countP_cons, UInt32.add_assoc, Nat.add_comm,
      UInt32.ofNat_add]
    cases entry.2.change.sort == sort <;> rfl

-- Each counter says how many ids of its sort there are, as far as a word can.
theorem get_summary (difference : Difference) (sort : ChangeSort) :
    difference.summary.get sort = .ofNat (difference.idsOf sort).length := by
  have hfold := get_foldl_add {} difference.changes sort
  have hzero : Summary.get {} sort = 0 := by cases sort <;> rfl
  rw [hzero, UInt32.zero_add] at hfold
  rw [idsOf, Ledger.keys, List.length_map, ← List.countP_eq_length_filter]
  exact hfold

theorem toNat_get_summary {difference : Difference}
    (hfew : difference.changes.length < UInt32.size) (sort : ChangeSort) :
    (difference.summary.get sort).toNat = (difference.idsOf sort).length := by
  have hle : (difference.idsOf sort).length ≤ difference.changes.length := by
    rw [idsOf, Ledger.keys, List.length_map]
    exact List.length_filter_le ..
  rw [get_summary]
  exact UInt32.toNat_ofNat_of_lt' (Nat.lt_of_le_of_lt hle hfew)

-- What a difference is to say of a plan that is compared with the plan before, if there is one.
structure Exact (previous : Option Plan) (current : Plan) (difference : Difference) : Prop where
  modification : difference.modification = current.modification
  order : difference.changes.keys = current.ids.eraseDups ++
    ((previous.map Plan.ids).getD []).eraseDups.filter fun id => !current.ids.contains id
  once : difference.changes.keys.Nodup
  fates : ∀ id, difference.changes.get? id =
    Node.fate? (previous.bind (·.last? id)) (current.last? id)
  changed : ∀ id, id ∈ difference.changed ↔
    ∃ change, difference.changes.get? id = some change ∧ change.change.sort ≠ .unchanged
  changedOrder : difference.changed.Sublist difference.changes.keys
  counted : ∀ sort, difference.summary.get sort = .ofNat (difference.idsOf sort).length
  -- the four counters add up to the number of entries as words do
  total : difference.summary.added + difference.summary.removed + difference.summary.updated +
    difference.summary.unchanged = .ofNat difference.changes.length
  -- and as numbers do, as long as there are fewer entries than words
  exactTotal : difference.changes.length < UInt32.size →
    difference.count .added + difference.count .removed + difference.count .updated +
      difference.count .unchanged = difference.changes.length

theorem exact_between (hfresh : current.modification ≠ .regenerate) :
    (between previous current).Exact previous current where
  modification := by rw [between_of_ne hfresh]
  order := keys_changes hfresh
  once := nodup_keys_changes hfresh
  fates := get?_changes hfresh
  changed := by
    intro id
    have honce : (Ledger.keys (between previous current).changes).Nodup := nodup_keys_changes hfresh
    have hmem := Ledger.mem_keys_filter honce isChange id
    rw [between_of_ne hfresh] at hmem ⊢
    simpa only [isChange, bne_iff_ne] using hmem
  changedOrder := by
    rw [between_of_ne hfresh]
    exact List.filter_sublist.map _
  counted := get_summary _
  total := by
    rw [length_changes_eq, UInt32.ofNat_add, UInt32.ofNat_add, UInt32.ofNat_add, ← get_summary,
      ← get_summary, ← get_summary, ← get_summary]
    rfl
  exactTotal := by
    intro hfew
    rw [count, count, count, count, toNat_get_summary hfew, toNat_get_summary hfew,
      toNat_get_summary hfew, toNat_get_summary hfew]
    exact (length_changes_eq _).symm

-- A difference says of every id what has become of it, in order and without repetition, and the
-- other way round it says the reverse. A plan that was made anew is not compared.
theorem between_exact (previous : Option Plan) (current : Plan) :
    (current.modification ≠ .regenerate →
      (between previous current).Exact previous current ∧
      ∀ prior : Plan, prior.modification ≠ .regenerate → ∀ id,
        ((between (some current) prior).changes.get? id).map (·.change) =
          ((between (some prior) current).changes.get? id).map (·.change.reverse)) ∧
    (current.modification = .regenerate →
      between previous current = ⟨.regenerate, current.ids.eraseDups, []⟩) := by
  refine ⟨fun hfresh => ⟨exact_between hfresh, fun prior hprior id => ?_⟩, fun hanew => ?_⟩
  · rw [get?_changes hprior, get?_changes hfresh]
    exact Node.fate?_swap ..
  · rw [between, hanew]

end Difference

end Wireframe
