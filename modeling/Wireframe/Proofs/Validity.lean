import Wireframe.Plan.Validity
import Wireframe.Proofs.Forbidden
import Wireframe.Proofs.Tree

namespace Wireframe

def IsLetterOrDigit (c : Char) : Prop :=
  'A' ≤ c ∧ c ≤ 'Z' ∨ 'a' ≤ c ∧ c ≤ 'z' ∨ '0' ≤ c ∧ c ≤ '9'

structure WellFormedId (id : String) : Prop where
  nonempty : 1 ≤ id.length
  short : id.length ≤ 256
  characters : ∀ c ∈ id.toList, IsLetterOrDigit c ∨ c = '.' ∨ c = '_' ∨ c = '-'
  start : ∀ c ∈ id.toList.head?, IsLetterOrDigit c

theorem isIdStart_iff (c : Char) : isIdStart c = true ↔ IsLetterOrDigit c := by
  have hupper : c.isUpper = decide (c.val ≥ 'A'.val ∧ c.val ≤ 'Z'.val) := rfl
  have hlower : c.isLower = (decide (c.val ≥ 'a'.val) && decide (c.val ≤ 'z'.val)) := rfl
  have hdigit : c.isDigit = (decide (c.val ≥ '0'.val) && decide (c.val ≤ '9'.val)) := rfl
  have hstart : isIdStart c = ((c.isUpper || c.isLower) || c.isDigit) := rfl
  simp only [hstart, hupper, hlower, hdigit, IsLetterOrDigit, Bool.or_eq_true, Bool.and_eq_true,
    decide_eq_true_eq, ge_iff_le, Char.le_def, or_assoc]

theorem isIdPart_iff (c : Char) :
    isIdPart c = true ↔ IsLetterOrDigit c ∨ c = '.' ∨ c = '_' ∨ c = '-' := by
  rw [← isIdStart_iff]
  simp only [isIdPart, isIdStart, Bool.or_eq_true, beq_iff_eq, or_assoc]

theorem isValidId_iff (id : String) : isValidId id = true ↔ WellFormedId id := by
  have hlength : id.length = id.toList.length := String.length_toList.symm
  unfold isValidId
  cases hid : id.toList with
  | nil =>
    rw [hid] at hlength
    refine iff_of_false (by simp) fun h => ?_
    have := h.nonempty
    simp only [List.length_nil] at hlength
    omega
  | cons c rest =>
    rw [hid, List.length_cons] at hlength
    simp only [Bool.and_eq_true, List.all_eq_true, decide_eq_true_eq, isIdStart_iff, isIdPart_iff]
    constructor
    · rintro ⟨⟨hstart, hparts⟩, hshort⟩
      refine ⟨by omega, by omega, ?_, ?_⟩
      · rw [hid]
        exact List.forall_mem_cons.mpr ⟨.inl hstart, hparts⟩
      · rw [hid]
        rintro _ ⟨⟩
        exact hstart
    · rintro ⟨_, hshort, hparts, hstart⟩
      rw [hid] at hparts hstart
      exact ⟨⟨hstart c rfl, (List.forall_mem_cons.mp hparts).2⟩, by omega⟩

namespace Node

-- A node with which nothing is wrong for itself.
structure Acceptable (whitelist : Whitelist) (node : Node) : Prop where
  id : WellFormedId node.id
  listed : whitelist.get? node.kind.name = some node.kind.role
  filled : node.kind.role = .layout → node.children ≠ []
  clean : ∀ c, node = .component c → ∀ key ∈ Json.keysInFields c.props, ¬ ForbiddenKey key

-- What is wrong with a node for itself. An earlier rule keeps the later ones from being looked at.
inductive Defect (whitelist : Whitelist) (node : Node) : Fault → Prop where
  | invalidId :
    ¬ WellFormedId node.id → Defect whitelist node (.structural .invalidId node.kind.name node.id)
  | unknownKind :
    WellFormedId node.id → whitelist.get? node.kind.name ≠ some node.kind.role →
      Defect whitelist node (.unknownKind node.kind.name node.id)
  | emptyLayout :
    WellFormedId node.id → whitelist.get? node.kind.name = some node.kind.role →
      node.kind.role = .layout → node.children = [] →
      Defect whitelist node (.structural .emptyLayout node.kind.name node.id)
  | forbiddenProp {c : Component} {key : String} {before after : List String} :
    WellFormedId node.id → whitelist.get? node.kind.name = some node.kind.role →
      node = .component c → Json.keysInFields c.props = before ++ key :: after →
      ForbiddenKey key → (∀ earlier ∈ before, ¬ ForbiddenKey earlier) →
      Defect whitelist node (.forbiddenProp key node.kind.name node.id)

-- The forbidden prop of a node.
def markup? : Node → Option Fault
  | .layout _ _ _ _ => none
  | .component c =>
    (Json.forbiddenInFields? c.props).map fun key => .forbiddenProp key c.kind.name c.id

-- What is wrong with a node whose id and kind are right.
def ownFault? : Node → Option Fault
  | .layout id kind _ children =>
    if children.isEmpty then some (.structural .emptyLayout kind.name id) else none
  | .component c => (component c).markup?

-- What is wrong with the id and the kind of a node.
def headFault? (whitelist : Whitelist) (node : Node) : Option Fault :=
  if !isValidId node.id then some (.structural .invalidId node.kind.name node.id)
  else if !whitelist.allows node.kind then some (.unknownKind node.kind.name node.id)
  else none

-- The defect of a node, found as the check finds it.
def fault? (whitelist : Whitelist) (node : Node) : Option Fault :=
  (node.headFault? whitelist).or node.ownFault?

end Node

theorem Whitelist.allows_iff (whitelist : Whitelist) (kind : Kind) :
    whitelist.allows kind = true ↔ whitelist.get? kind.name = some kind.role := by
  rw [Whitelist.allows, beq_iff_eq]

namespace Node

variable {whitelist : Whitelist} {node : Node}

theorem fault?_of_invalid (hid : ¬ WellFormedId node.id) :
    node.fault? whitelist = some (.structural .invalidId node.kind.name node.id) := by
  rw [← isValidId_iff] at hid
  simp only [fault?, headFault?, hid, Bool.not_false, if_true, Option.some_or]

theorem fault?_of_unlisted (hid : WellFormedId node.id)
    (hkind : whitelist.get? node.kind.name ≠ some node.kind.role) :
    node.fault? whitelist = some (.unknownKind node.kind.name node.id) := by
  rw [← isValidId_iff] at hid
  rw [ne_eq, ← whitelist.allows_iff] at hkind
  simp only [fault?, headFault?, hid, hkind, Bool.not_true, Bool.not_false, Bool.false_eq_true,
    if_false, if_true, Option.some_or]

theorem fault?_of_listed (hid : WellFormedId node.id)
    (hkind : whitelist.get? node.kind.name = some node.kind.role) :
    node.fault? whitelist = node.ownFault? := by
  rw [← isValidId_iff] at hid
  rw [← whitelist.allows_iff] at hkind
  simp only [fault?, headFault?, hid, hkind, Bool.not_true, Bool.false_eq_true, if_false,
    Option.none_or]

theorem markup?_eq_none_iff :
    node.markup? = none ↔
      ∀ c, node = .component c → ∀ key ∈ Json.keysInFields c.props, ¬ ForbiddenKey key := by
  cases node with
  | layout id kind spacing children => exact iff_of_true rfl nofun
  | component c =>
    rw [markup?, Option.map_eq_none_iff, Json.forbiddenInFields?_eq_none_iff]
    refine ⟨fun h => ?_, fun h => h c rfl⟩
    rintro _ ⟨⟩
    exact h

theorem ownFault?_eq_none_iff :
    node.ownFault? = none ↔ (node.kind.role = .layout → node.children ≠ []) ∧
      ∀ c, node = .component c → ∀ key ∈ Json.keysInFields c.props, ¬ ForbiddenKey key := by
  cases node with
  | layout id kind spacing children =>
    simp only [ownFault?, ite_eq_right_iff, reduceCtorEq, imp_false, List.isEmpty_iff]
    exact ⟨fun h => ⟨fun _ => h, nofun⟩, fun h => h.1 rfl⟩
  | component c =>
    rw [ownFault?, markup?_eq_none_iff]
    exact ⟨fun h => ⟨nofun, h⟩, fun h => h.2⟩

theorem fault?_eq_none_iff : node.fault? whitelist = none ↔ node.Acceptable whitelist := by
  constructor
  · intro h
    by_cases hid : WellFormedId node.id
    · by_cases hkind : whitelist.get? node.kind.name = some node.kind.role
      · rw [fault?_of_listed hid hkind] at h
        have hown := ownFault?_eq_none_iff.mp h
        exact ⟨hid, hkind, hown.1, hown.2⟩
      · simp [fault?_of_unlisted hid hkind] at h
    · simp [fault?_of_invalid hid] at h
  · intro h
    rw [fault?_of_listed h.id h.listed]
    exact ownFault?_eq_none_iff.mpr ⟨h.filled, h.clean⟩

theorem Defect.of_fault? {fault : Fault} (h : node.fault? whitelist = some fault) :
    node.Defect whitelist fault := by
  by_cases hid : WellFormedId node.id
  · by_cases hkind : whitelist.get? node.kind.name = some node.kind.role
    · rw [fault?_of_listed hid hkind] at h
      cases node with
      | layout id kind spacing children =>
        simp only [ownFault?, Option.ite_none_right_eq_some, Option.some.injEq] at h
        obtain ⟨hempty, rfl⟩ := h
        exact .emptyLayout hid hkind rfl (List.isEmpty_iff.mp hempty)
      | component c =>
        obtain ⟨key, hkey, rfl⟩ := Option.map_eq_some_iff.mp h
        obtain ⟨hforbidden, before, after, hkeys, hbefore⟩ :=
          (Json.forbiddenInFields?_eq_some_iff _ _).mp hkey
        exact .forbiddenProp hid hkind rfl hkeys hforbidden hbefore
    · rw [fault?_of_unlisted hid hkind] at h
      cases h
      exact .unknownKind hid hkind
  · rw [fault?_of_invalid hid] at h
    cases h
    exact .invalidId hid

theorem Defect.fault?_eq {fault : Fault} (h : node.Defect whitelist fault) :
    node.fault? whitelist = some fault := by
  cases h with
  | invalidId hid => exact fault?_of_invalid hid
  | unknownKind hid hkind => exact fault?_of_unlisted hid hkind
  | emptyLayout hid hkind hrole hempty =>
    rw [fault?_of_listed hid hkind]
    cases node with
    | layout id kind spacing children =>
      obtain rfl : children = [] := hempty
      rfl
    | component c => cases hrole
  | forbiddenProp hid hkind hnode hkeys hforbidden hbefore =>
    rw [fault?_of_listed hid hkind]
    subst hnode
    have hfound := (Json.forbiddenInFields?_eq_some_iff _ _).mpr ⟨hforbidden, _, _, hkeys, hbefore⟩
    rw [ownFault?, markup?, hfound]
    rfl

end Node

theorem ok_bind {ε α β : Type} (a : α) (f : α → Except ε β) :
    ((Except.ok a : Except ε α) >>= f) = f a := rfl

theorem bind_eq_error {α β : Type} {x : Except Fault α} {f : α → Except Fault β} {fault : Fault}
    (h : (x >>= f) = .error fault) : x = .error fault ∨ ∃ a, x = .ok a ∧ f a = .error fault := by
  cases x with
  | error first =>
    cases h
    exact .inl rfl
  | ok a => exact .inr ⟨a, rfl, h⟩

theorem bind_eq_ok_iff {ε α β : Type} {x : Except ε α} {f : α → Except ε β} {b : β} :
    (x >>= f) = .ok b ↔ ∃ a, x = .ok a ∧ f a = .ok b := by
  cases x with
  | error fault => exact iff_of_false nofun (by rintro ⟨_, ⟨⟩, _⟩)
  | ok a => exact ⟨fun h => ⟨a, rfl, h⟩, by rintro ⟨_, ⟨⟩, h⟩; exact h⟩

-- The value, unless there is something wrong.
def unlessFault {α : Type} (fault? : Option Fault) (a : α) : Except Fault α :=
  match fault? with
  | none => .ok a
  | some fault => .error fault

theorem unlessFault_eq_error_iff {α : Type} {fault? : Option Fault} {a : α} {fault : Fault} :
    unlessFault fault? a = .error fault ↔ fault? = some fault := by
  cases fault? <;> simp [unlessFault]

theorem unlessFault_or {α : Type} (first second : Option Fault) (a : α) :
    unlessFault (first.or second) a = (do unlessFault first (); unlessFault second a) := by
  cases first <;> rfl

theorem checkHead_eq (whitelist : Whitelist) (node : Node) :
    checkHead whitelist node.id node.kind = unlessFault (node.headFault? whitelist) () := by
  unfold checkHead Node.headFault?
  split
  · rfl
  · split <;> rfl

theorem checkProps_eq (c : Component) :
    checkProps c.props (.component c.kind) c.id = unlessFault (Node.component c).markup? () := by
  rw [checkProps, Node.markup?]
  cases Json.forbiddenInFields? c.props <;> rfl

theorem Component.checkAll_eq (whitelist : Whitelist) (parts : List Component) :
    Component.checkAll whitelist parts = Node.checkAll whitelist (parts.map .component) := by
  induction parts with
  | nil => rfl
  | cons c rest ih => rw [Component.checkAll, List.map_cons, Node.checkAll, Node.check, ih]

-- A node is checked for itself, and then its children are.
theorem Node.check_eq (whitelist : Whitelist) (node : Node) :
    node.check whitelist = (do
      unlessFault (node.fault? whitelist) ()
      Node.checkAll whitelist node.children) := by
  rw [fault?, unlessFault_or, ← checkHead_eq, bind_assoc]
  cases node with
  | layout id kind spacing children => cases children <;> rfl
  | component c =>
    rw [ownFault?, ← checkProps_eq, Node.children, ← Component.checkAll_eq]
    cases c
    rw [Node.check, Component.check]
    rfl

theorem Node.checkAll_of_forall (whitelist : Whitelist) (nodes : List Node)
    (hcheck : ∀ node ∈ nodes,
      node.check whitelist = unlessFault (node.walk.findSome? (Node.fault? whitelist)) ()) :
    Node.checkAll whitelist nodes =
      unlessFault ((nodes.flatMap Node.walk).findSome? (Node.fault? whitelist)) () := by
  induction nodes with
  | nil => rfl
  | cons node rest ih =>
    obtain ⟨hnode, hrest⟩ := List.forall_mem_cons.mp hcheck
    rw [Node.checkAll, hnode, ih hrest, List.flatMap_cons, List.findSome?_append, unlessFault_or]

-- Checking a tree finds the first node in the walk that has a defect.
theorem Node.check_eq_findSome? (whitelist : Whitelist) (node : Node) :
    node.check whitelist = unlessFault (node.walk.findSome? (Node.fault? whitelist)) () := by
  induction node using Node.induct with
  | step node ih =>
    rw [Node.check_eq, Node.checkAll_of_forall whitelist _ ih, ← unlessFault_or, Node.walk_eq,
      List.findSome?_cons]
    cases node.fault? whitelist <;> rfl

theorem firstRepeated?_eq_none_iff (seen : List String) (nodes : List Node) :
    firstRepeated? seen nodes = none ↔
      (nodes.map Node.id).Nodup ∧ ∀ node ∈ nodes, node.id ∉ seen := by
  induction nodes generalizing seen with
  | nil => simp [firstRepeated?]
  | cons node rest ih =>
    rw [firstRepeated?, List.map_cons, List.nodup_cons, List.forall_mem_cons]
    by_cases hseen : node.id ∈ seen
    · simp [hseen]
    · simp only [List.contains_iff_mem, hseen, if_false, ih, List.mem_cons, not_or,
        not_false_eq_true, true_and, List.mem_map, not_exists, not_and]
      constructor
      · rintro ⟨hrest, hnew⟩
        exact ⟨⟨fun other hother => (hnew other hother).1, hrest⟩,
          fun other hother => (hnew other hother).2⟩
      · rintro ⟨⟨hnode, hrest⟩, hnew⟩
        exact ⟨hrest, fun other hother => ⟨hnode other hother, hnew other hother⟩⟩

-- The node that is reported is the first whose id has occurred.
theorem firstRepeated?_eq_some_iff (seen : List String) (nodes : List Node) (node : Node) :
    firstRepeated? seen nodes = some node ↔
      ∃ before after, nodes = before ++ node :: after ∧
        firstRepeated? seen before = none ∧ (node.id ∈ seen ∨ node.id ∈ before.map Node.id) := by
  induction nodes generalizing seen with
  | nil => simp [firstRepeated?]
  | cons head rest ih =>
    rw [firstRepeated?]
    by_cases hseen : head.id ∈ seen
    · simp only [List.contains_iff_mem, hseen, if_true, Option.some.injEq]
      constructor
      · rintro rfl
        exact ⟨[], rest, rfl, rfl, .inl hseen⟩
      · rintro ⟨before, after, hsplit, hbefore, -⟩
        cases before with
        | nil => exact (List.cons.inj hsplit).1
        | cons first before =>
          obtain ⟨rfl, -⟩ := List.cons.inj hsplit
          simp [firstRepeated?, hseen] at hbefore
    · simp only [List.contains_iff_mem, hseen, if_false, ih]
      constructor
      · rintro ⟨before, after, rfl, hbefore, hnode⟩
        refine ⟨head :: before, after, rfl, ?_, ?_⟩
        · simpa [firstRepeated?, hseen] using hbefore
        · simp only [List.mem_cons, List.map_cons] at hnode ⊢
          rcases hnode with (h | h) | h
          · exact .inr (.inl h)
          · exact .inl h
          · exact .inr (.inr h)
      · rintro ⟨before, after, hsplit, hbefore, hnode⟩
        cases before with
        | nil =>
          obtain ⟨rfl, -⟩ := List.cons.inj hsplit
          simp [hseen] at hnode
        | cons first before =>
          obtain ⟨rfl, hrest⟩ := List.cons.inj hsplit
          refine ⟨before, after, hrest, ?_, ?_⟩
          · simpa [firstRepeated?, hseen] using hbefore
          · simp only [List.mem_cons, List.map_cons] at hnode ⊢
            rcases hnode with h | h | h
            · exact .inl (.inr h)
            · exact .inl (.inl h)
            · exact .inr h

namespace Plan

-- Checking a plan is a scan for defects and then a scan for repeated ids.
theorem validate_eq (whitelist : Whitelist) (plan : Plan) :
    plan.validate whitelist =
      match plan.nodes.findSome? (Node.fault? whitelist) with
      | some fault => .error fault
      | none =>
        match firstRepeated? [] plan.nodes with
        | some node => .error (.structural .duplicateId node.kind.name node.id)
        | none => .ok plan := by
  rw [validate, Node.check_eq_findSome?]
  cases h : plan.nodes.findSome? (Node.fault? whitelist) <;> rw [nodes] at h <;> rw [h] <;> rfl

-- What checking is to decide about a plan: the plan itself if nothing is wrong with it, else the
-- first defect in the walk, and the first repeated id if no node has a defect.
inductive Verdict (whitelist : Whitelist) (plan : Plan) : Except Fault Plan → Prop where
  | accepted :
    (∀ node ∈ plan.nodes, node.Acceptable whitelist) → plan.ids.Nodup →
      Verdict whitelist plan (.ok plan)
  | defective {before after : List Node} {node : Node} {fault : Fault} :
    plan.nodes = before ++ node :: after →
      (∀ earlier ∈ before, earlier.Acceptable whitelist) → node.Defect whitelist fault →
      Verdict whitelist plan (.error fault)
  | repeated {before after : List Node} {node : Node} :
    (∀ other ∈ plan.nodes, other.Acceptable whitelist) → plan.nodes = before ++ node :: after →
      (before.map Node.id).Nodup → node.id ∈ before.map Node.id →
      Verdict whitelist plan (.error (.structural .duplicateId node.kind.name node.id))

variable {whitelist : Whitelist} {plan : Plan}

theorem findSome?_fault?_eq_none_iff :
    plan.nodes.findSome? (Node.fault? whitelist) = none ↔
      ∀ node ∈ plan.nodes, node.Acceptable whitelist := by
  simp only [List.findSome?_eq_none_iff, Node.fault?_eq_none_iff]

theorem validate_of_acceptable (haccept : ∀ node ∈ plan.nodes, node.Acceptable whitelist) :
    plan.validate whitelist =
      match firstRepeated? [] plan.nodes with
      | some node => .error (.structural .duplicateId node.kind.name node.id)
      | none => .ok plan := by
  rw [validate_eq, findSome?_fault?_eq_none_iff.mpr haccept]

theorem Verdict.of_validate {result : Except Fault Plan} (h : plan.validate whitelist = result) :
    plan.Verdict whitelist result := by
  subst h
  cases hscan : plan.nodes.findSome? (Node.fault? whitelist) with
  | some fault =>
    rw [validate_eq, hscan]
    obtain ⟨before, node, after, hsplit, hfault, hbefore⟩ := List.findSome?_eq_some_iff.mp hscan
    refine .defective hsplit (fun earlier hearlier => ?_) (.of_fault? hfault)
    exact Node.fault?_eq_none_iff.mp (hbefore earlier hearlier)
  | none =>
    have haccept := findSome?_fault?_eq_none_iff.mp hscan
    rw [validate_of_acceptable haccept]
    cases hrepeat : firstRepeated? [] plan.nodes with
    | none => exact .accepted haccept ((firstRepeated?_eq_none_iff _ _).mp hrepeat).1
    | some node =>
      obtain ⟨before, after, hsplit, hbefore, hnode⟩ :=
        (firstRepeated?_eq_some_iff _ _ _).mp hrepeat
      exact .repeated haccept hsplit ((firstRepeated?_eq_none_iff _ _).mp hbefore).1
        (hnode.resolve_left List.not_mem_nil)

theorem Verdict.validate_eq {result : Except Fault Plan} (h : plan.Verdict whitelist result) :
    plan.validate whitelist = result := by
  cases h with
  | accepted haccept hdistinct =>
    rw [validate_of_acceptable haccept,
      (firstRepeated?_eq_none_iff _ _).mpr ⟨hdistinct, fun _ _ => List.not_mem_nil⟩]
  | @defective before after node fault hsplit hbefore hdefect =>
    have hscan : plan.nodes.findSome? (Node.fault? whitelist) = some fault :=
      List.findSome?_eq_some_iff.mpr ⟨before, node, after, hsplit, hdefect.fault?_eq,
        fun earlier hearlier => Node.fault?_eq_none_iff.mpr (hbefore earlier hearlier)⟩
    rw [Plan.validate_eq, hscan]
  | @repeated before after node haccept hsplit hbefore hnode =>
    have hfirst : firstRepeated? [] plan.nodes = some node :=
      (firstRepeated?_eq_some_iff _ _ _).mpr ⟨before, after, hsplit,
        (firstRepeated?_eq_none_iff _ _).mpr ⟨hbefore, fun _ _ => List.not_mem_nil⟩, .inr hnode⟩
    rw [validate_of_acceptable haccept, hfirst]

theorem validate_eq_ok_iff :
    plan.validate whitelist = .ok plan ↔
      (∀ node ∈ plan.nodes, node.Acceptable whitelist) ∧ plan.ids.Nodup := by
  constructor
  · intro h
    cases Verdict.of_validate h with
    | accepted haccept hdistinct => exact ⟨haccept, hdistinct⟩
  · rintro ⟨haccept, hdistinct⟩
    exact (Verdict.accepted haccept hdistinct).validate_eq

theorem not_nodup_ids_of_split {before after : List Node} {node : Node}
    (hsplit : plan.nodes = before ++ node :: after) (hnode : node.id ∈ before.map Node.id) :
    ¬ plan.ids.Nodup := by
  intro hnodup
  rw [ids, hsplit, List.map_append, List.map_cons] at hnodup
  exact (List.nodup_append.mp hnodup).2.2 node.id hnode node.id List.mem_cons_self rfl

-- A repeated id is reported only where there is one.
theorem not_nodup_ids_of_validate {kind id : String}
    (h : plan.validate whitelist = .error (.structural .duplicateId kind id)) :
    ¬ plan.ids.Nodup := by
  generalize hresult : Except.error (Fault.structural .duplicateId kind id) = result at h
  cases Verdict.of_validate h with
  | accepted => cases hresult
  | defective _ _ hdefect =>
    cases hresult
    cases hdefect
  | repeated _ hsplit _ hnode => exact not_nodup_ids_of_split hsplit hnode

theorem eq_of_validate_eq_ok {other : Plan} (h : plan.validate whitelist = .ok other) :
    other = plan := by
  cases Verdict.of_validate h with
  | accepted _ _ => rfl

-- The check decides as the scan of the walk does, on every plan and with every whitelist.
theorem validate_iff_verdict (whitelist : Whitelist) (plan : Plan) :
    (plan.validate whitelist = .ok plan ↔
      (∀ node ∈ plan.nodes, node.Acceptable whitelist) ∧ plan.ids.Nodup) ∧
    ∀ result, plan.validate whitelist = result ↔ plan.Verdict whitelist result :=
  ⟨validate_eq_ok_iff, fun _ => ⟨.of_validate, Verdict.validate_eq⟩⟩

end Plan

end Wireframe
