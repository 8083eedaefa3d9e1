import Wireframe.Proofs.Reading

namespace Wireframe

namespace Json

mutual

-- A value without the entries that have a forbidden key, at any depth.
def erase : Json → Json
  | array items => array (eraseItems items)
  | object fields => object (eraseFields fields)
  | json => json

def eraseItems : List Json → List Json
  | [] => []
  | item :: rest => item.erase :: eraseItems rest

def eraseFields : List (String × Json) → List (String × Json)
  | [] => []
  | (key, value) :: rest =>
    if isForbiddenKey key then eraseFields rest else (key, value.erase) :: eraseFields rest

end

mutual

theorem erase_eq_self : ∀ json : Json, (keys json).find? isForbiddenKey = none → json.erase = json
  | array items, h => by rw [erase, eraseItems_eq_self items h]
  | object fields, h => by rw [erase, eraseFields_eq_self fields h]
  | null, _ => rfl
  | bool _, _ => rfl
  | int _, _ => rfl
  | float _, _ => rfl
  | string _, _ => rfl

theorem eraseItems_eq_self :
    ∀ items : List Json, (keysInItems items).find? isForbiddenKey = none → eraseItems items = items
  | [], _ => rfl
  | item :: rest, h => by
    rw [keysInItems, List.find?_append, Option.or_eq_none_iff] at h
    rw [eraseItems, erase_eq_self item h.1, eraseItems_eq_self rest h.2]

-- Where no key is forbidden, nothing is erased.
theorem eraseFields_eq_self :
    ∀ fields : List (String × Json),
      (keysInFields fields).find? isForbiddenKey = none → eraseFields fields = fields
  | [], _ => rfl
  | (key, value) :: rest, h => by
    rw [keysInFields, List.find?_cons] at h
    cases hkey : isForbiddenKey key with
    | true => simp [hkey] at h
    | false =>
      simp only [hkey, List.find?_append, Option.or_eq_none_iff] at h
      rw [eraseFields, hkey, if_neg Bool.false_ne_true, erase_eq_self value h.1,
        eraseFields_eq_self rest h.2]

end

theorem erase_eq_null_iff {json : Json} : json.erase = null ↔ json = null := by
  cases json <;> simp [erase]

theorem erase_eq_object_iff {json : Json} {fields : Fields} :
    json.erase = object fields ↔ ∃ raw, json = object raw ∧ eraseFields raw = fields := by
  cases json <;> simp [erase]

end Json

namespace Plan

mutual

-- A node without the forbidden keys of its own, in its props at any depth, and of the nodes below it.
def eraseNode : Json → Json
  | .object fields => .object (eraseEntries fields)
  | json => json

def eraseEntries : List (String × Json) → List (String × Json)
  | [] => []
  | (key, value) :: rest =>
    if isForbiddenKey key then eraseEntries rest
    else if key = "props" then (key, value.erase) :: eraseEntries rest
    else if key = "children" then (key, eraseChildren value) :: eraseEntries rest
    else (key, value) :: eraseEntries rest

def eraseChildren : Json → Json
  | .array items => .array (eraseNodes items)
  | json => json

def eraseNodes : List Json → List Json
  | [] => []
  | item :: rest => eraseNode item :: eraseNodes rest

end

-- What becomes of an entry of a plan. Only the root is a node.
def eraseTop (key : String) (value : Json) : Json := if key = "root" then eraseNode value else value

-- A plan with its nodes without forbidden keys.
def erase : Json → Json
  | .object fields => .object (fields.map fun entry => (entry.1, eraseTop entry.1 entry.2))
  | json => json

mutual

-- The nodes in a value: each before those below it, children in their order.
def nodesOf : Json → List Json
  | .object fields => .object fields :: nodesBelow fields
  | json => [json]

def nodesBelow : List (String × Json) → List Json
  | [] => []
  | (key, .array items) :: rest => if key = "children" then nodesOfAll items else nodesBelow rest
  | _ :: rest => nodesBelow rest

def nodesOfAll : List Json → List Json
  | [] => []
  | item :: rest => nodesOf item ++ nodesOfAll rest

end

-- The keys of a node: those of its own entries, and then those in its props at any depth.
def keysOfNode : Json → List String
  | .object fields => Ledger.keys fields ++ ((Ledger.get? fields "props").map Json.keys).getD []
  | _ => []

def CleanNode (node : Json) : Prop := ∀ key ∈ keysOfNode node, ¬ ForbiddenKey key

-- The first of some nodes that has a forbidden key, and what is told of it: one of its forbidden keys,
-- its kind and its id.
inductive FirstForbidden (nodes : List Json) : Fault → Prop
  | intro {before after : List Json} {node : Json} {key kind id : String} :
    nodes = before ++ node :: after → (∀ earlier ∈ before, CleanNode earlier) →
      key ∈ keysOfNode node → ForbiddenKey key → node.field? "id" = some (.string id) →
      node.field? "type" = some (.string kind) →
      FirstForbidden nodes (.forbiddenProp key kind id)

variable {path : Path} {fields : Fields}

theorem eraseNodes_eq (items : List Json) : eraseNodes items = items.map eraseNode := by
  induction items with
  | nil => rfl
  | cons item rest ih => rw [eraseNodes, ih, List.map_cons]

theorem nodesOfAll_eq (items : List Json) : nodesOfAll items = items.flatMap nodesOf := by
  induction items with
  | nil => rfl
  | cons item rest ih => rw [nodesOfAll, ih, List.flatMap_cons]

theorem nodesBelow_eq (fields : Fields) : nodesBelow fields = (childItems fields).flatMap nodesOf := by
  induction fields with
  | nil => rfl
  | cons entry rest ih =>
    obtain ⟨key, value⟩ := entry
    cases value with
    | array items =>
      by_cases hkey : key = "children" <;> simp [nodesBelow, childItems, hkey, nodesOfAll_eq, ih]
    | _ => exact ih

-- What becomes of the value under a key that is not forbidden.
def eraseUnder (key : String) (value : Json) : Json :=
  if key = "props" then value.erase else if key = "children" then eraseChildren value else value

theorem eraseEntries_eq (fields : Fields) :
    eraseEntries fields = (fields.filter fun entry => !isForbiddenKey entry.1).map
      fun entry => (entry.1, eraseUnder entry.1 entry.2) := by
  induction fields with
  | nil => rfl
  | cons entry rest ih =>
    obtain ⟨key, value⟩ := entry
    rw [eraseEntries, ih, List.filter_cons]
    cases isForbiddenKey key with
    | true => rfl
    | false =>
      simp only [Bool.false_eq_true, if_false, Bool.not_false, if_true, List.map_cons, eraseUnder]
      by_cases hprops : key = "props"
      · simp [hprops]
      · by_cases hchildren : key = "children" <;> simp [hprops, hchildren]

-- The entries of a node keep their places, and all but the props and the children their values.
theorem get?_eraseEntries (fields : Fields) {key : String} (hkey : isForbiddenKey key = false) :
    Ledger.get? (eraseEntries fields) key = (fields.get? key).map (eraseUnder key) := by
  rw [eraseEntries_eq, Ledger.get?_map eraseUnder, Ledger.get?_filter fun key => !isForbiddenKey key,
    hkey]
  rfl

theorem childItems_eraseEntries (fields : Fields) :
    childItems (eraseEntries fields) = (childItems fields).map eraseNode := by
  induction fields with
  | nil => rfl
  | cons entry rest ih =>
    obtain ⟨key, value⟩ := entry
    by_cases hkey : key = "children"
    · subst hkey
      have hallowed : isForbiddenKey "children" = false := by decide
      rw [eraseEntries, hallowed]
      cases value with
      | array items => simp [eraseChildren, eraseNodes_eq, childItems]
      | _ => exact ih
    · rw [childItems_cons_of_ne hkey, ← ih, eraseEntries]
      cases isForbiddenKey key with
      | true => rfl
      | false =>
        simp only [Bool.false_eq_true, if_false, hkey]
        split <;> exact childItems_cons_of_ne hkey _ _

-- Reading some nodes stops at the first that has a forbidden key. Where there is none it gives `a`.
def StopsAt {α : Type} (nodes : List Json) (reading : Reading α) (a : α) : Prop :=
  (∀ node ∈ nodes, CleanNode node) ∧ reading = .ok a ∨
    ∃ fault, FirstForbidden nodes fault ∧ reading = .error fault

namespace FirstForbidden

variable {first second : List Json} {fault : Fault}

theorem append (h : FirstForbidden first fault) (second : List Json) :
    FirstForbidden (first ++ second) fault := by
  obtain ⟨rfl, hbefore, hkey, hforbidden, hid, htype⟩ := h
  exact .intro (List.append_assoc ..) hbefore hkey hforbidden hid htype

theorem append_clean (hclean : ∀ node ∈ first, CleanNode node) (h : FirstForbidden second fault) :
    FirstForbidden (first ++ second) fault := by
  obtain ⟨rfl, hbefore, hkey, hforbidden, hid, htype⟩ := h
  refine .intro (List.append_assoc ..).symm ?_ hkey hforbidden hid htype
  exact List.forall_mem_append.mpr ⟨hclean, hbefore⟩

end FirstForbidden

namespace StopsAt

variable {α β : Type} {first second : List Json} {x : Reading α} {f : α → Reading β} {a : α} {b : β}

theorem of_ok (h : x = .ok a) : StopsAt [] x a := .inl ⟨nofun, h⟩

-- What is read one after the other stops in the first part or goes on to the second.
theorem bind (hfirst : StopsAt first x a) (hsecond : StopsAt second (f a) b) :
    StopsAt (first ++ second) (x >>= f) b := by
  rcases hfirst with ⟨hclean, rfl⟩ | ⟨fault, hfault, rfl⟩
  · rcases hsecond with ⟨hrest, hread⟩ | ⟨fault, hfault, hread⟩
    · exact .inl ⟨List.forall_mem_append.mpr ⟨hclean, hrest⟩, hread⟩
    · exact .inr ⟨fault, hfault.append_clean hclean, hread⟩
  · exact .inr ⟨fault, hfault.append second, rfl⟩

theorem bind_ok (hfirst : StopsAt first x a) (hsecond : f a = .ok b) :
    StopsAt first (x >>= f) b := by
  simpa using hfirst.bind (of_ok hsecond)

end StopsAt

theorem checkNodeKeys_of_or {id : String} {kind : Kind} {keys : List String}
    (hkeys : ∀ key ∈ keys, key ∈ nodeKeys ∨ isForbiddenKey key = true) :
    checkNodeKeys path id kind keys =
      unlessFault ((keys.find? isForbiddenKey).map (.forbiddenProp · kind.name id)) () := by
  induction keys with
  | nil => rfl
  | cons key rest ih =>
    obtain ⟨hkey, hrest⟩ := List.forall_mem_cons.mp hkeys
    have hallowed : ∀ key ∈ nodeKeys, isForbiddenKey key = false := by decide
    rw [checkNodeKeys, List.find?_cons]
    by_cases hnode : key ∈ nodeKeys
    · simp [hnode, hallowed key hnode, ih hrest]
    · simp [hnode, hkey.resolve_left hnode, unlessFault]

-- The props are read in their raw form.
theorem readProps_of_erase (path : Path) {props : Fields}
    (h : HasProps (eraseEntries fields) props) :
    ∃ raw, readProps path fields = .ok raw ∧ Json.eraseFields raw = props ∧
      ((fields.get? "props").map Json.keys).getD [] = Json.keysInFields raw := by
  have hget : Ledger.get? (eraseEntries fields) "props" = (fields.get? "props").map Json.erase :=
    get?_eraseEntries fields (by decide)
  rw [readProps]
  cases h with
  | unset hunset =>
    rw [Unset, hget, Option.map_eq_none_iff, Option.map_eq_some_iff] at hunset
    simp only [Json.erase_eq_null_iff, exists_eq_right] at hunset
    rcases hunset with hnone | hnull
    · exact ⟨[], by rw [hnone], rfl, by rw [hnone]; rfl⟩
    · exact ⟨[], by rw [hnull], rfl, by rw [hnull]; rfl⟩
  | given hgiven =>
    rw [hget, Option.map_eq_some_iff] at hgiven
    obtain ⟨value, hvalue, herase⟩ := hgiven
    obtain ⟨raw, rfl, hraw⟩ := Json.erase_eq_object_iff.mp herase
    exact ⟨raw, by rw [hvalue], hraw, by rw [hvalue]; rfl⟩

theorem readHasChildren_eraseEntries (path : Path) (fields : Fields) :
    readHasChildren path (eraseEntries fields) = readHasChildren path fields := by
  have hget : Ledger.get? (eraseEntries fields) "children" =
      (fields.get? "children").map eraseChildren := get?_eraseEntries fields (by decide)
  rw [readHasChildren, readHasChildren, hget]
  cases fields.get? "children" with
  | none => rfl
  | some value => cases value <;> rfl

-- The head of a node without forbidden keys tells what the node itself is.
theorem hasHead_of_erase {id : String} {kind : Kind} (h : HasHead (eraseEntries fields) id kind) :
    fields.get? "id" = some (.string id) ∧ fields.get? "type" = some (.string kind.name) ∧
      ∀ key ∈ fields.keys, key ∈ nodeKeys ∨ isForbiddenKey key = true := by
  have hid := h.id
  have htype := h.type
  rw [get?_eraseEntries fields (by decide), Option.map_eq_some_iff] at hid htype
  obtain ⟨_, hid, rfl⟩ := hid
  obtain ⟨_, htype, rfl⟩ := htype
  refine ⟨hid, htype, fun key hkey => ?_⟩
  by_cases hforbidden : isForbiddenKey key = true
  · exact .inr hforbidden
  · refine .inl (h.keys key ?_)
    obtain ⟨entry, hentry, rfl⟩ := List.mem_map.mp hkey
    rw [eraseEntries_eq, Ledger.keys, List.map_map]
    exact List.mem_map_of_mem (List.mem_filter.mpr ⟨hentry, by simpa using hforbidden⟩)

-- The keys of a node are looked at in their order, and else its head is read as it stands.
theorem readHead_of_erase {head : Head} (h : readHead path (eraseEntries fields) = .ok head) :
    readHead path fields = unlessFault (((keysOfNode (.object fields)).find? isForbiddenKey).map
      (.forbiddenProp · head.kind.name head.id)) head := by
  obtain ⟨hhead, hprops, -, hgiven⟩ := readHead_eq_ok_iff.mp h
  obtain ⟨hid, htype, hkeys⟩ := hasHead_of_erase hhead
  obtain ⟨raw, hread, hraw, hpropKeys⟩ := readProps_of_erase path hprops
  rw [readHasChildren_eraseEntries] at hgiven
  rw [readHead, readString_eq_ok_iff.mpr hid, readString_eq_ok_iff.mpr htype]
  simp only [ok_bind, Kind.ofName?_name, checkNodeKeys_of_or hkeys, hread, hgiven]
  rw [keysOfNode, hpropKeys, List.find?_append, checkProps, Json.forbiddenInFields?_eq_find?]
  cases Ledger.keys fields |>.find? isForbiddenKey with
  | some key => rfl
  | none =>
    cases hfind : (Json.keysInFields raw).find? isForbiddenKey with
    | some key => rfl
    | none =>
      rw [Json.eraseFields_eq_self raw hfind] at hraw
      rw [hraw]
      rfl

theorem cleanNode_iff {node : Json} :
    CleanNode node ↔ (keysOfNode node).find? isForbiddenKey = none := by
  simp only [CleanNode, List.find?_eq_none, isForbiddenKey_iff]

theorem stopsAt_readHead {head : Head} (h : readHead path (eraseEntries fields) = .ok head) :
    StopsAt [.object fields] (readHead path fields) head := by
  obtain ⟨hid, htype, -⟩ := hasHead_of_erase (readHead_eq_ok_iff.mp h).1
  rw [StopsAt, readHead_of_erase h, List.forall_mem_singleton, cleanNode_iff]
  cases hfind : (keysOfNode (.object fields)).find? isForbiddenKey with
  | none => exact .inl ⟨rfl, rfl⟩
  | some key =>
    exact .inr ⟨_, .intro (List.nil_append _).symm nofun (List.mem_of_find?_eq_some hfind)
      ((isForbiddenKey_iff key).mp (List.find?_some hfind)) hid htype, rfl⟩

theorem stopsAt_readNodes {items : List Json} {index : Nat} {nodes : List Node}
    (hread : ∀ item ∈ items, ∀ path node, readNode path (eraseNode item) = .ok node →
      StopsAt (nodesOf item) (readNode path item) node)
    (h : readNodes path index (items.map eraseNode) = .ok nodes) :
    StopsAt (items.flatMap nodesOf) (readNodes path index items) nodes := by
  induction items generalizing index nodes with
  | nil => exact .of_ok h
  | cons item rest ih =>
    obtain ⟨hitem, hrest⟩ := List.forall_mem_cons.mp hread
    rw [List.map_cons, readNodes] at h
    obtain ⟨node, hnode, h⟩ := bind_eq_ok_iff.mp h
    obtain ⟨others, hothers, ⟨⟩⟩ := bind_eq_ok_iff.mp h
    rw [readNodes, List.flatMap_cons]
    exact (hitem _ _ hnode).bind ((ih hrest hothers).bind_ok rfl)

theorem stopsAt_readComponents {items : List Json} {index : Nat} {parts : List Component}
    (hread : ∀ item ∈ items, ∀ path node, readNode path (eraseNode item) = .ok node →
      StopsAt (nodesOf item) (readNode path item) node)
    (h : readComponents path index (items.map eraseNode) = .ok parts) :
    StopsAt (items.flatMap nodesOf) (readComponents path index items) parts := by
  induction items generalizing index parts with
  | nil => exact .of_ok h
  | cons item rest ih =>
    obtain ⟨hitem, hrest⟩ := List.forall_mem_cons.mp hread
    rw [List.map_cons, readComponents] at h
    obtain ⟨node, hnode, h⟩ := bind_eq_ok_iff.mp h
    obtain ⟨part, hpart, h⟩ := bind_eq_ok_iff.mp h
    obtain ⟨others, hothers, ⟨⟩⟩ := bind_eq_ok_iff.mp h
    rw [readComponents, List.flatMap_cons]
    refine (hitem _ _ hnode).bind ?_
    rw [hpart]
    exact (ih hrest hothers).bind_ok rfl

-- A node that can be read without its forbidden keys is read up to the first of them.
theorem stopsAt_readNode {json : Json} {node : Node} (h : readNode path (eraseNode json) = .ok node) :
    StopsAt (nodesOf json) (readNode path json) node := by
  induction json using Json.induct generalizing path node with
  | other json hother =>
    cases json with
    | object => cases hother
    | _ => cases h
  | object fields ih =>
    have hread : ∀ item ∈ childItems fields, ∀ path node,
        readNode path (eraseNode item) = .ok node →
        StopsAt (nodesOf item) (readNode path item) node := by
      intro item hitem path node hnode
      obtain ⟨key, items, hentry, hmem⟩ := exists_mem_of_mem_childItems hitem
      exact ih key items hentry item hmem hnode
    rw [eraseNode, readNode] at h
    obtain ⟨head, hhead, h⟩ := bind_eq_ok_iff.mp h
    rw [readNode, nodesOf, nodesBelow_eq]
    refine (stopsAt_readHead hhead).bind ?_
    cases hkind : head.kind with
    | layout kind =>
      rw [hkind] at h
      obtain ⟨spacing, hspacing, h⟩ := bind_eq_ok_iff.mp h
      simp only [hspacing, ok_bind]
      cases hgiven : head.hasChildren with
      | false =>
        rw [hgiven] at h
        cases h
      | true =>
        rw [hgiven] at h
        obtain ⟨children, hchildren, ⟨⟩⟩ := bind_eq_ok_iff.mp h
        rw [readChildren_eq, childItems_eraseEntries] at hchildren
        simp only [readChildren_eq]
        exact (stopsAt_readNodes hread hchildren).bind_ok rfl
    | component kind =>
      rw [hkind] at h
      obtain ⟨parts, hparts, ⟨⟩⟩ := bind_eq_ok_iff.mp h
      rw [readParts_eq, childItems_eraseEntries] at hparts
      simp only [readParts_eq]
      exact (stopsAt_readComponents hread hparts).bind_ok rfl

theorem eraseChildren_eq_self {value : Json}
    (hitems : ∀ items, value = .array items → ∀ item ∈ items, eraseNode item = item) :
    eraseChildren value = value := by
  cases value with
  | array items =>
    rw [eraseChildren, eraseNodes_eq, List.map_congr_left (hitems items rfl), List.map_id']
  | _ => rfl

theorem eraseEntries_eq_self (hclean : CleanNode (.object fields))
    (hsame : ∀ key value, (key, value) ∈ fields → eraseUnder key value = value) :
    eraseEntries fields = fields := by
  have hallowed : (fields.filter fun entry => !isForbiddenKey entry.1) = fields := by
    rw [List.filter_eq_self]
    intro entry hentry
    have hkey : entry.1 ∈ Ledger.keys fields := List.mem_map_of_mem hentry
    have hforbidden := hclean entry.1 (List.mem_append_left _ hkey)
    rwa [← isForbiddenKey_iff, Bool.not_eq_true, ← Bool.not_eq_true'] at hforbidden
  rw [eraseEntries_eq, hallowed]
  refine (List.map_congr_left fun entry hentry => ?_).trans (List.map_id _)
  exact congrArg (entry.1, ·) (hsame entry.1 entry.2 hentry)

theorem erase_props_eq_self (hclean : CleanNode (.object fields)) {props : Json}
    (hprops : fields.get? "props" = some props) : props.erase = props := by
  apply Json.erase_eq_self
  rw [List.find?_eq_none]
  intro key hkey
  rw [isForbiddenKey_iff]
  refine hclean key (List.mem_append_right _ ?_)
  rw [hprops]
  exact hkey

-- Without a forbidden key nothing is erased. With each key once, the props and the children that are
-- looked at are all there are.
theorem eraseNode_eq_self {json : Json} (hdistinct : json.Distinct)
    (hclean : ∀ node ∈ nodesOf json, CleanNode node) : eraseNode json = json := by
  induction json using Json.induct with
  | other json hother =>
    cases json with
    | object => cases hother
    | _ => rfl
  | object fields ih =>
    obtain ⟨hkeys, hvalues⟩ := hdistinct.fields
    rw [nodesOf, List.forall_mem_cons, nodesBelow_eq] at hclean
    obtain ⟨hnode, hbelow⟩ := hclean
    have hitems (item : Json) (hitem : item ∈ childItems fields) : eraseNode item = item := by
      obtain ⟨key, items, hentry, hmem⟩ := exists_mem_of_mem_childItems hitem
      refine ih key items hentry item hmem ((hvalues _ hentry).items item hmem) fun node hin => ?_
      exact hbelow node (List.mem_flatMap.mpr ⟨item, hitem, hin⟩)
    rw [eraseNode, eraseEntries_eq_self hnode]
    intro key value hentry
    have hget := (Ledger.get?_eq_some_iff hkeys).mpr hentry
    rw [eraseUnder]
    split
    · next hprops =>
      subst hprops
      exact erase_props_eq_self hnode hget
    · split
      · next hchildren =>
        subst hchildren
        apply eraseChildren_eq_self
        rintro items rfl
        rwa [childItems_of_hasParts hkeys (.given hget)] at hitems
      · rfl

theorem stopsAt_readRoot {root : Layout}
    (h : readRoot (fields.map fun entry => (entry.1, eraseTop entry.1 entry.2)) = .ok root) :
    ∃ value, fields.get? "root" = some value ∧ StopsAt (nodesOf value) (readRoot fields) root := by
  rw [readRoot, Ledger.get?_map eraseTop] at h
  rw [readRoot]
  cases hvalue : Ledger.get? fields "root" with
  | none =>
    rw [hvalue] at h
    cases h
  | some value =>
    rw [hvalue] at h
    obtain ⟨node, hnode, hroot⟩ := bind_eq_ok_iff.mp h
    exact ⟨value, rfl, (stopsAt_readNode hnode).bind_ok hroot⟩

-- A plan that can be read without its forbidden keys is read up to the first of them.
theorem stopsAt_ofJson {json : Json} {plan : Plan} (h : ofJson (erase json) = .ok plan) :
    ∃ root, json.field? "root" = some root ∧ StopsAt (nodesOf root) (ofJson json) plan := by
  cases json with
  | object fields =>
    have hkeys : Ledger.keys (fields.map fun entry => (entry.1, eraseTop entry.1 entry.2)) =
        Ledger.keys fields := by
      rw [Ledger.keys, List.map_map]
      rfl
    rw [erase, ofJson, hkeys] at h
    rw [ofJson]
    split at h
    · cases h
    · obtain ⟨modification, hmodification, h⟩ := bind_eq_ok_iff.mp h
      obtain ⟨layout, hlayout, hplan⟩ := bind_eq_ok_iff.mp h
      rw [readModification_eq_ok_iff, Ledger.get?_map eraseTop,
        Option.map_eq_some_iff] at hmodification
      obtain ⟨name, hname, hsame⟩ := hmodification
      obtain rfl : name = .string modification.name := hsame
      obtain ⟨root, hroot, hstops⟩ := stopsAt_readRoot hlayout
      refine ⟨root, hroot, ?_⟩
      simp only [readModification_eq_ok_iff.mpr hname, ok_bind]
      exact hstops.bind_ok hplan
  | _ => cases h

theorem erase_eq_self {json root : Json} (hdistinct : json.Distinct)
    (hroot : json.field? "root" = some root) (hclean : ∀ node ∈ nodesOf root, CleanNode node) :
    erase json = json := by
  cases json with
  | object fields =>
    obtain ⟨hkeys, hvalues⟩ := hdistinct.fields
    have hmem : ("root", root) ∈ fields := Ledger.mem_of_get? hroot
    rw [erase]
    congr 1
    refine (List.map_congr_left fun entry hentry => ?_).trans (List.map_id _)
    obtain ⟨key, value⟩ := entry
    rw [eraseTop]
    split
    · next hkey =>
      subst hkey
      have hget := (Ledger.get?_eq_some_iff hkeys).mpr hentry
      obtain rfl : value = root := Option.some.inj (hget.symm.trans hroot)
      exact congrArg (Prod.mk "root") (eraseNode_eq_self (hvalues _ hmem) hclean)
    · rfl
  | _ => cases hroot

-- A plan that could be read without its forbidden keys, and has some, is refused for the first node
-- in the walk that has one, whatever its kind; the fault tells one of its forbidden keys, its kind and
-- its id. That objects have each key once is so of all that is parsed (`Json.distinct_of_parse?`).
theorem ofJson_forbidden_of_erase {json : Json} {plan : Plan} (hdistinct : json.Distinct)
    (hread : ofJson (erase json) = .ok plan) (hchanged : erase json ≠ json) :
    ∃ root fault, json.field? "root" = some root ∧ FirstForbidden (nodesOf root) fault ∧
      ofJson json = .error fault := by
  obtain ⟨root, hroot, ⟨hclean, -⟩ | ⟨fault, hfault, hrefused⟩⟩ := stopsAt_ofJson hread
  · exact absurd (erase_eq_self hdistinct hroot hclean) hchanged
  · exact ⟨root, fault, hroot, hfault, hrefused⟩

-- A row with a clean card and a column, of which the column and a card in it have forbidden keys.
def markedCard : Json :=
  .object [
    ("id", .string "card"), ("type", .string "Card"),
    ("props", .object [("rows", .array [.object [("innerHTML", .string "<b>")]])])]

def markedColumn : Json :=
  .object [
    ("id", .string "column"), ("type", .string "Column"),
    ("props", .object [("gap", .int 4), ("Style", .object [])]), ("children", .array [markedCard])]

def markedJson : Json :=
  .object [
    ("modificationType", .string "create"),
    ("root", .object [
      ("id", .string "row"), ("type", .string "Row"), ("children", .array [looseCard, markedColumn])])]

theorem distinct_markedJson : markedJson.Distinct := by
  have hmarkup : (Json.object [("innerHTML", .string "<b>")]).Distinct :=
    .object (by decide) (by simpa using .string _)
  have hrows : (Json.object [("rows", .array [.object [("innerHTML", .string "<b>")]])]).Distinct :=
    .object (by decide) (by simpa using .array (by simpa using hmarkup))
  have hcard : markedCard.Distinct :=
    .object (by decide) (by simpa using ⟨.string _, .string _, hrows⟩)
  have hspacing : (Json.object [("gap", .int 4), ("Style", .object [])]).Distinct :=
    .object (by decide) (by simpa using ⟨.int _, .object .nil nofun⟩)
  have hcolumn : markedColumn.Distinct :=
    .object (by decide)
      (by simpa using ⟨.string _, .string _, hspacing, .array (by simpa using hcard)⟩)
  have hclean : looseCard.Distinct :=
    .object (by decide) (by simpa using ⟨.null, .string _, .string _⟩)
  have hrow : (Json.object [("id", .string "row"), ("type", .string "Row"),
      ("children", .array [looseCard, markedColumn])]).Distinct :=
    .object (by decide)
      (by simpa using ⟨.string _, .string _, .array (by simpa using ⟨hclean, hcolumn⟩)⟩)
  exact .object (by decide) (by simpa using ⟨.string _, hrow⟩)

-- The fault is that of the column, although its spacing has no such setting either.
theorem markedJson_refused :
    markedJson.Distinct ∧ (∃ plan, ofJson (erase markedJson) = .ok plan) ∧
    erase markedJson ≠ markedJson ∧
    (∃ root fault, markedJson.field? "root" = some root ∧ FirstForbidden (nodesOf root) fault ∧
      ofJson markedJson = .error fault) ∧
    ofJson markedJson = .error (.forbiddenProp "Style" "Column" "column") := by
  obtain ⟨plan, hread⟩ : ∃ plan, ofJson (erase markedJson) = .ok plan := ⟨_, rfl⟩
  have hchanged : erase markedJson ≠ markedJson := by
    intro hsame
    have hkeys := congrArg Json.keys hsame
    revert hkeys
    decide
  exact ⟨distinct_markedJson, ⟨plan, hread⟩, hchanged,
    ofJson_forbidden_of_erase distinct_markedJson hread hchanged, rfl⟩

end Plan

end Wireframe
