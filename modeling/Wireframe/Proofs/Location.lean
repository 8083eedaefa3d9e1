import Wireframe.Proofs.Reading

namespace Wireframe

namespace Path

-- The place of a node, from the place of a node above it.
def down (path : Path) (steps : List Nat) : Path := steps.foldl child path

-- The place of an entry within a node, or of the node itself.
def entry (path : Path) (names : List String) : Path := names.foldl field path

theorem text_down (path : Path) (steps : List Nat) :
    (path.down steps).text =
      path.text ++ String.join (steps.map fun index => ".children[" ++ toString index ++ "]") := by
  induction steps generalizing path with
  | nil => simp [down]
  | cons index rest ih =>
    have hdown : path.down (index :: rest) = (path.child index).down rest := rfl
    rw [hdown, ih, List.map_cons, String.join_cons, text]
    simp only [String.append_assoc]

theorem text_entry (path : Path) (names : List String) :
    (path.entry names).text = path.text ++ String.join (names.map ("." ++ ·)) := by
  induction names generalizing path with
  | nil => simp [entry]
  | cons name rest ih =>
    have hentry : path.entry (name :: rest) = (path.field name).entry rest := rfl
    rw [hentry, ih, List.map_cons, String.join_cons, text]
    simp only [String.append_assoc]

end Path

namespace Plan

-- From a node through its children, given by their indices, to a node below it. The children before
-- each of these can be read.
inductive Reaches : Path → Json → List Nat → Json → Prop
  | here (path : Path) (json : Json) : Reaches path json [] json
  | layout {path : Path} {fields : Fields} {kind : LayoutKind} {before after : List Json}
      {item target : Json} {nodes : List Node} {steps : List Nat} :
    fields.get? "type" = some (.string kind.name) →
      fields.get? "children" = some (.array (before ++ item :: after)) →
      readNodes path 0 before = .ok nodes → Reaches (.child path before.length) item steps target →
      Reaches path (.object fields) (before.length :: steps) target
  | component {path : Path} {fields : Fields} {kind : ComponentKind} {before after : List Json}
      {item target : Json} {parts : List Component} {steps : List Nat} :
    fields.get? "type" = some (.string kind.name) →
      fields.get? "children" = some (.array (before ++ item :: after)) →
      readComponents path 0 before = .ok parts → Reaches (.child path before.length) item steps target →
      Reaches path (.object fields) (before.length :: steps) target

-- What is wrong with a node, and with which entry of it.
inductive Misfit : Json → List String → SchemaProblem → Prop
  | notObject {json : Json} : json.object? = none → Misfit json [] .nodeNotObject
  | missing {fields : Fields} {key : String} :
    key ∈ ["id", "type"] → fields.get? key = none → Misfit (.object fields) [key] .missingField
  | notString {fields : Fields} {key : String} {value : Json} :
    key ∈ ["id", "type"] → fields.get? key = some value → value.string? = none →
      Misfit (.object fields) [key] .notString
  | unexpected {fields : Fields} {key : String} :
    key ∈ fields.keys → key ∉ ["id", "type", "props", "children"] →
      Misfit (.object fields) [key] .unexpectedField
  | props {fields : Fields} {value : Json} :
    fields.get? "props" = some value → value.isNull = false → value.object? = none →
      Misfit (.object fields) ["props"] .notObject
  | children {fields : Fields} {value : Json} :
    fields.get? "children" = some value → value.isNull = false → value.array? = none →
      Misfit (.object fields) ["children"] .notArray
  | childless {fields : Fields} {kind : LayoutKind} :
    fields.get? "type" = some (.string kind.name) → Unset fields "children" →
      Misfit (.object fields) ["children"] .layoutWithoutChildren
  | unknownSetting {fields props : Fields} {kind : LayoutKind} {key : String} :
    fields.get? "type" = some (.string kind.name) → fields.get? "props" = some (.object props) →
      key ∈ props.keys → key ∉ ["gap", "padding", "columns"] →
      Misfit (.object fields) ["props", key] .unknownLayoutProp
  | badSetting {fields props : Fields} {kind : LayoutKind} {key : String} {value : Json} :
    fields.get? "type" = some (.string kind.name) → fields.get? "props" = some (.object props) →
      (key, value) ∈ props → key ∈ ["gap", "padding", "columns"] → ¬ IsSetting value →
      Misfit (.object fields) ["props", key] .notNatural

variable {path place : Path} {fields : Fields} {problem : SchemaProblem}

-- What is told of the node at `path` is wrong with it.
def OwnFault (path : Path) (json : Json) (place : Path) (problem : SchemaProblem) : Prop :=
  ∃ names, place = path.entry names ∧ Misfit json names problem

-- What is told is wrong with the node at `path` or with one below it, to which the place leads.
def Located (path : Path) (json : Json) (place : Path) (problem : SchemaProblem) : Prop :=
  ∃ steps target, Reaches path json steps target ∧ OwnFault (path.down steps) target place problem

theorem Located.own {json : Json} (h : OwnFault path json place problem) :
    Located path json place problem :=
  ⟨[], json, .here path json, h⟩

theorem ownFault_of_readString {key : String} (hkey : key ∈ ["id", "type"])
    (h : readString (.field path key) fields key = .error (.schema place problem)) :
    OwnFault path (.object fields) place problem := by
  refine ⟨[key], ?_⟩
  rw [readString] at h
  cases hget : fields.get? key with
  | none =>
    rw [hget] at h
    cases h
    exact ⟨rfl, .missing hkey hget⟩
  | some value =>
    rw [hget] at h
    cases value with
    | string s => cases h
    | _ =>
      cases h
      exact ⟨rfl, .notString hkey hget rfl⟩

theorem ownFault_of_checkNodeKeys {id : String} {kind : Kind}
    (h : checkNodeKeys path id kind fields.keys = .error (.schema place problem)) :
    OwnFault path (.object fields) place problem := by
  suffices hkey : ∀ keys, checkNodeKeys path id kind keys = .error (.schema place problem) →
      ∃ key ∈ keys, key ∉ nodeKeys ∧ place = .field path key ∧ problem = .unexpectedField by
    obtain ⟨key, hmem, hunknown, rfl, rfl⟩ := hkey _ h
    exact ⟨[key], rfl, .unexpected hmem hunknown⟩
  intro keys h
  induction keys with
  | nil => cases h
  | cons key rest ih =>
    rw [checkNodeKeys] at h
    split at h
    · obtain ⟨other, hother, hmisfit⟩ := ih h
      exact ⟨other, List.mem_cons_of_mem _ hother, hmisfit⟩
    · next hkey =>
      split at h
      · cases h
      · cases h
        exact ⟨key, List.mem_cons_self, by simpa using hkey, rfl, rfl⟩

theorem ownFault_of_readProps (h : readProps path fields = .error (.schema place problem)) :
    OwnFault path (.object fields) place problem := by
  refine ⟨["props"], ?_⟩
  rw [readProps] at h
  cases hget : fields.get? "props" with
  | none =>
    rw [hget] at h
    cases h
  | some value =>
    rw [hget] at h
    cases value with
    | null | object => cases h
    | _ =>
      cases h
      exact ⟨rfl, .props hget rfl rfl⟩

theorem ownFault_of_readHasChildren
    (h : readHasChildren path fields = .error (.schema place problem)) :
    OwnFault path (.object fields) place problem := by
  refine ⟨["children"], ?_⟩
  rw [readHasChildren] at h
  cases hget : fields.get? "children" with
  | none =>
    rw [hget] at h
    cases h
  | some value =>
    rw [hget] at h
    cases value with
    | null | array => cases h
    | _ =>
      cases h
      exact ⟨rfl, .children hget rfl rfl⟩

theorem ownFault_of_readHead (h : readHead path fields = .error (.schema place problem)) :
    OwnFault path (.object fields) place problem := by
  rw [readHead] at h
  rcases bind_eq_error h with h | ⟨id, -, h⟩
  · exact ownFault_of_readString (by simp) h
  rcases bind_eq_error h with h | ⟨name, -, h⟩
  · exact ownFault_of_readString (by simp) h
  split at h
  · cases h
  rcases bind_eq_error h with h | ⟨-, -, h⟩
  · exact ownFault_of_checkNodeKeys h
  rcases bind_eq_error h with h | ⟨props, -, h⟩
  · exact ownFault_of_readProps h
  rcases bind_eq_error h with h | ⟨-, -, h⟩
  · rw [checkProps] at h
    split at h <;> cases h
  rcases bind_eq_error h with h | ⟨given, -, h⟩
  · exact ownFault_of_readHasChildren h
  · cases h

theorem readWord_eq_error {value : Json} {fault : Fault} (h : readWord path value = .error fault) :
    fault = .schema path .notNatural ∧ ∀ n : UInt32, value ≠ .int n.toNat := by
  refine ⟨?_, ?_⟩
  · rw [readWord] at h
    split at h
    · split at h <;> cases h
      rfl
    · cases h
      rfl
  · intro n hvalue
    rw [readWord_eq_ok_iff.mpr hvalue] at h
    cases h

-- The fault of a setting that is not known or is not a number.
inductive RefusesSetting (path : Path) (key : String) (value : Json) : Fault → Prop
  | unknown : key ∉ ["gap", "padding", "columns"] →
    RefusesSetting path key value (.schema (.field path key) .unknownLayoutProp)
  | bad : key ∈ ["gap", "padding", "columns"] → ¬ IsSetting value →
    RefusesSetting path key value (.schema (.field path key) .notNatural)

theorem readSpacing_eq_error {props : Fields} {before : Spacing} {fault : Fault}
    (h : readSpacing path before props = .error fault) :
    ∃ key value, (key, value) ∈ props ∧ RefusesSetting path key value fault := by
  induction props generalizing before with
  | nil => cases h
  | cons entry rest ih =>
    obtain ⟨key, value⟩ := entry
    have hlater {spacing : Spacing} (hrest : readSpacing path spacing rest = .error fault) :
        ∃ other setting, (other, setting) ∈ (key, value) :: rest ∧
          RefusesSetting path other setting fault := by
      obtain ⟨other, setting, hmem, hfault⟩ := ih hrest
      exact ⟨other, setting, List.mem_cons_of_mem _ hmem, hfault⟩
    rw [readSpacing] at h
    split at h
    · next hunknown =>
      cases h
      refine ⟨key, value, List.mem_cons_self, .unknown fun hknown => ?_⟩
      obtain ⟨prop, rfl⟩ := mem_settingNames_iff.mp hknown
      rw [SpacingProp.ofName?_name] at hunknown
      cases hunknown
    · next prop hprop =>
      split at h
      · exact hlater h
      · next hnull =>
        rcases bind_eq_error h with h | ⟨n, -, h⟩
        · obtain ⟨rfl, hword⟩ := readWord_eq_error h
          have hknown := mem_settingNames_iff.mpr ⟨prop, SpacingProp.name_of_ofName? hprop⟩
          refine ⟨key, value, List.mem_cons_self, .bad hknown fun hsetting => ?_⟩
          rcases isSetting_iff.mp hsetting with rfl | ⟨n, rfl⟩
          · exact hnull rfl
          · exact hword n rfl
        · exact hlater h

-- Only props that are given have settings.
theorem ownFault_of_readSpacing {props : Fields} {id : String} {kind : LayoutKind}
    (hhead : HasHead fields id (.layout kind)) (hprops : HasProps fields props)
    (h : readSpacing (.field path "props") {} props = .error (.schema place problem)) :
    OwnFault path (.object fields) place problem := by
  obtain ⟨key, value, hmem, hfault⟩ := readSpacing_eq_error h
  cases hprops with
  | unset => cases hmem
  | given hgiven =>
    refine ⟨["props", key], ?_⟩
    cases hfault with
    | unknown hunknown =>
      exact ⟨rfl, .unknownSetting hhead.type hgiven (List.mem_map_of_mem hmem) hunknown⟩
    | bad hknown hsetting => exact ⟨rfl, .badSetting hhead.type hgiven hmem hknown hsetting⟩

-- A list stops at the first item that cannot be read.
theorem readNodes_eq_error {items : List Json} {index : Nat} {fault : Fault}
    (h : readNodes path index items = .error fault) :
    ∃ before item after nodes, items = before ++ item :: after ∧
      readNodes path index before = .ok nodes ∧
      readNode (.child path (index + before.length)) item = .error fault := by
  induction items generalizing index with
  | nil => cases h
  | cons item rest ih =>
    rw [readNodes] at h
    rcases bind_eq_error h with hitem | ⟨node, hnode, h⟩
    · exact ⟨[], item, rest, [], rfl, rfl, hitem⟩
    · rcases bind_eq_error h with hrest | ⟨nodes, -, h⟩
      · obtain ⟨before, other, after, nodes, rfl, hbefore, hother⟩ := ih hrest
        refine ⟨item :: before, other, after, node :: nodes, rfl, ?_, ?_⟩
        · rw [readNodes, hnode, ok_bind, hbefore]
          rfl
        · rwa [List.length_cons, Nat.add_comm before.length 1, ← Nat.add_assoc]
      · cases h

theorem readComponents_eq_error {items : List Json} {index : Nat}
    (h : readComponents path index items = .error (.schema place problem)) :
    ∃ before item after parts, items = before ++ item :: after ∧
      readComponents path index before = .ok parts ∧
      readNode (.child path (index + before.length)) item = .error (.schema place problem) := by
  induction items generalizing index with
  | nil => cases h
  | cons item rest ih =>
    rw [readComponents] at h
    rcases bind_eq_error h with hitem | ⟨node, hnode, h⟩
    · exact ⟨[], item, rest, [], rfl, rfl, hitem⟩
    rcases bind_eq_error h with hpart | ⟨part, hpart, h⟩
    · cases node <;> cases hpart
    rcases bind_eq_error h with hrest | ⟨parts, -, h⟩
    · obtain ⟨before, other, after, parts, rfl, hbefore, hother⟩ := ih hrest
      refine ⟨item :: before, other, after, part :: parts, rfl, ?_, ?_⟩
      · rw [readComponents, hnode, ok_bind, hpart, ok_bind, hbefore]
        rfl
      · rwa [List.length_cons, Nat.add_comm before.length 1, ← Nat.add_assoc]
    · cases h

namespace Located

variable {items : List Json}

theorem of_readNodes {kind : LayoutKind} (htype : fields.get? "type" = some (.string kind.name))
    (hparts : HasParts fields items)
    (hitems : ∀ item ∈ items, ∀ below, readNode below item = .error (.schema place problem) →
      Located below item place problem)
    (h : readNodes path 0 items = .error (.schema place problem)) :
    Located path (.object fields) place problem := by
  obtain ⟨before, item, after, nodes, rfl, hbefore, hrefused⟩ := readNodes_eq_error h
  have hitem : item ∈ before ++ item :: after := List.mem_append_right _ List.mem_cons_self
  rw [Nat.zero_add] at hrefused
  obtain ⟨steps, target, hreaches, hfault⟩ := hitems item hitem _ hrefused
  exact ⟨_, target, .layout htype (get?_of_hasParts hparts hitem) hbefore hreaches, hfault⟩

theorem of_readComponents {kind : ComponentKind}
    (htype : fields.get? "type" = some (.string kind.name)) (hparts : HasParts fields items)
    (hitems : ∀ item ∈ items, ∀ below, readNode below item = .error (.schema place problem) →
      Located below item place problem)
    (h : readComponents path 0 items = .error (.schema place problem)) :
    Located path (.object fields) place problem := by
  obtain ⟨before, item, after, parts, rfl, hbefore, hrefused⟩ := readComponents_eq_error h
  have hitem : item ∈ before ++ item :: after := List.mem_append_right _ List.mem_cons_self
  rw [Nat.zero_add] at hrefused
  obtain ⟨steps, target, hreaches, hfault⟩ := hitems item hitem _ hrefused
  exact ⟨_, target, .component htype (get?_of_hasParts hparts hitem) hbefore hreaches, hfault⟩

end Located

-- The fault of a node is its own or that of a node below it, and the way there can be read.
theorem located_of_readNode {json : Json} (hdistinct : json.Distinct)
    (h : readNode path json = .error (.schema place problem)) : Located path json place problem := by
  induction json using Json.induct generalizing path with
  | other json hother =>
    have hfault : readNode path json = .error (.schema path .nodeNotObject) := by
      cases json with
      | object => cases hother
      | _ => rfl
    rw [hfault] at h
    cases h
    exact .own ⟨[], rfl, .notObject hother⟩
  | object fields ih =>
    rw [readNode] at h
    rcases bind_eq_error h with h | ⟨head, hhead, h⟩
    · exact .own (ownFault_of_readHead h)
    obtain ⟨hentries, hprops, -, hgiven⟩ := readHead_eq_ok_iff.mp hhead
    obtain ⟨items, hparts⟩ := exists_readHasChildren_iff.mp ⟨_, hgiven⟩
    have hitems : childItems fields = items := childItems_of_hasParts hdistinct.fields.1 hparts
    have hbelow : ∀ item ∈ items, ∀ below, readNode below item = .error (.schema place problem) →
        Located below item place problem := by
      intro item hitem below hrefused
      obtain ⟨key, others, hentry, hin⟩ := exists_mem_of_hasParts hparts item hitem
      exact ih key others hentry item hin ((hdistinct.fields.2 _ hentry).items item hin) hrefused
    cases hkind : head.kind with
    | layout kind =>
      rw [hkind] at h hentries
      rcases bind_eq_error h with h | ⟨spacing, -, h⟩
      · exact .own (ownFault_of_readSpacing hentries hprops h)
      cases hhas : head.hasChildren with
      | false =>
        rw [hhas] at h hgiven
        cases h
        exact .own ⟨["children"], rfl, .childless hentries.type (unset_of_readHasChildren hgiven)⟩
      | true =>
        rw [hhas] at h
        rcases bind_eq_error h with h | ⟨children, -, ⟨⟩⟩
        rw [readChildren_eq, hitems] at h
        exact .of_readNodes hentries.type hparts hbelow h
    | component kind =>
      rw [hkind] at h hentries
      rcases bind_eq_error h with h | ⟨parts, -, ⟨⟩⟩
      rw [readParts_eq, hitems] at h
      exact .of_readComponents hentries.type hparts hbelow h

-- Of a plan whose root and modification are given, and nothing else, only the root can be faulty. What
-- is then told is at a place that leads from the root to the node with the fault; or the root itself
-- is read as a component.
theorem ofJson_schema_located {fields : Fields} {root : Json} {modification : Modification}
    {place : Path} {problem : SchemaProblem} (hdistinct : (Json.object fields).Distinct)
    (hkeys : ∀ key ∈ fields.keys, key ∈ ["modificationType", "root"])
    (hmodification : fields.get? "modificationType" = some (.string modification.name))
    (hroot : fields.get? "root" = some root)
    (hrefused : ofJson (.object fields) = .error (.schema place problem)) :
    ∃ steps names target, Reaches (.top "root") root steps target ∧
      place = ((Path.top "root").down steps).entry names ∧
      place.text = "root" ++
        String.join (steps.map fun index => ".children[" ++ toString index ++ "]") ++
        String.join (names.map ("." ++ ·)) ∧
      (Misfit target names problem ∨ steps = [] ∧ names = [] ∧ ∃ c,
        readNode (.top "root") root = .ok (.component c) ∧ problem = .rootNotLayout c.kind.name) := by
  have htext (steps : List Nat) (names : List String) :
      (((Path.top "root").down steps).entry names).text = "root" ++
        String.join (steps.map fun index => ".children[" ++ toString index ++ "]") ++
        String.join (names.map ("." ++ ·)) := by
    rw [Path.text_entry, Path.text_down]
    rfl
  rw [ofJson, find?_planKeys_eq_none_iff.mpr hkeys] at hrefused
  simp only [readModification_eq_ok_iff.mpr hmodification, ok_bind] at hrefused
  rcases bind_eq_error hrefused with h | ⟨layout, -, ⟨⟩⟩
  rw [readRoot, hroot] at h
  rcases bind_eq_error h with h | ⟨node, hnode, h⟩
  · have hvalue := hdistinct.fields.2 _ (Ledger.mem_of_get? hroot)
    obtain ⟨steps, target, hreaches, names, rfl, hmisfit⟩ := located_of_readNode hvalue h
    exact ⟨steps, names, target, hreaches, rfl, htext steps names, .inl hmisfit⟩
  · cases node with
    | layout => cases h
    | component c =>
      cases h
      exact ⟨[], [], root, .here _ root, rfl, htext [] [], .inr ⟨rfl, rfl, c, hnode, rfl⟩⟩

-- A grid with a card and a column, which holds a card and another one whose props are a number.
def numberedCard : Json :=
  .object [("id", .string "last"), ("type", .string "Card"), ("props", .int 5)]

def innerColumn : Json :=
  .object [
    ("id", .string "column"), ("type", .string "Column"),
    ("children", .array [looseCard, numberedCard])]

def outerGrid : Json :=
  .object [
    ("id", .string "grid"), ("type", .string "Grid"),
    ("children", .array [looseCard, innerColumn])]

def misfitEntries : Fields := [("root", outerGrid), ("modificationType", .string "edit")]

theorem distinct_misfitEntries : (Json.object misfitEntries).Distinct := by
  have hclean : looseCard.Distinct :=
    .object (by decide) (by simpa using ⟨.null, .string _, .string _⟩)
  have hcard : numberedCard.Distinct :=
    .object (by decide) (by simpa using ⟨.string _, .string _, .int _⟩)
  have hcolumn : innerColumn.Distinct :=
    .object (by decide)
      (by simpa using ⟨.string _, .string _, .array (by simpa using ⟨hclean, hcard⟩)⟩)
  have hgrid : outerGrid.Distinct :=
    .object (by decide)
      (by simpa using ⟨.string _, .string _, .array (by simpa using ⟨hclean, hcolumn⟩)⟩)
  exact .object (by decide) (by simpa [misfitEntries] using ⟨hgrid, .string _⟩)

-- The place leads past both clean cards to the props of the last one.
theorem misfitEntries_located :
    let place := ((Path.top "root").down [1, 1]).entry ["props"]
    (Json.object misfitEntries).Distinct ∧
    ofJson (.object misfitEntries) = .error (.schema place .notObject) ∧
    place.text = "root.children[1].children[1].props" ∧
    ∃ steps names target, Reaches (.top "root") outerGrid steps target ∧
      place = ((Path.top "root").down steps).entry names ∧ Misfit target names .notObject := by
  intro place
  have hmodification : Ledger.get? misfitEntries "modificationType" =
      some (.string Modification.edit.name) := rfl
  have hroot : Ledger.get? misfitEntries "root" = some outerGrid := rfl
  have hrefused : ofJson (.object misfitEntries) = .error (.schema place .notObject) := rfl
  obtain ⟨steps, names, target, hreaches, hplace, -, hmisfit | ⟨-, -, c, -, hproblem⟩⟩ :=
    ofJson_schema_located distinct_misfitEntries (by decide) hmodification hroot hrefused
  · exact ⟨distinct_misfitEntries, hrefused, by decide, steps, names, target, hreaches, hplace,
      hmisfit⟩
  · cases hproblem

end Plan

end Wireframe
