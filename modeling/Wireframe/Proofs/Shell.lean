import Wireframe.Proofs.Exclusion

namespace Wireframe

open Instruction (Concept)

namespace Instruction

variable {text : List Char} {concept : Concept}

-- No phrase for minimality counts next to a requirement of real structure.
theorem minimality?_eq_none (hconcept : concept ∈ Concept.complex)
    (hrequired : requires text concept = true) : minimality? text = none := by
  have hcomplex : requiresComplex text = true := List.any_eq_true.mpr ⟨concept, hconcept, hrequired⟩
  rw [minimality?, if_pos hcomplex]

namespace Features

theorem lacks_eq_false_of_has (h : (ofText text).has concept = true) :
    (ofText text).lacks concept = false := by
  rw [has_ofText] at h
  rw [lacks_ofText, excludes_eq_false_of_requires h, Bool.and_false]

end Features

end Instruction

namespace Node

def ofKind (kind : ComponentKind) (node : Node) : List Node :=
  node.walk.filter fun inner => inner.kind == .component kind

variable {kind : ComponentKind}

theorem ofKind_layout (id : String) (layoutKind : LayoutKind) (spacing : Spacing)
    (children : List Node) :
    (layout id layoutKind spacing children).ofKind kind = children.flatMap (ofKind kind) := by
  have hlayout : ((layout id layoutKind spacing children).kind == .component kind) = false := rfl
  rw [ofKind, walk_eq, List.filter_cons, hlayout, if_neg Bool.false_ne_true, List.filter_flatMap]
  rfl

theorem ofKind_leaf {c : Component} (hchildren : c.children = []) :
    (component c).ofKind kind = if c.kind = kind then [component c] else [] := by
  have hwalk : (component c).walk = [component c] := by
    rw [walk_eq, Node.children, hchildren]
    rfl
  rw [ofKind, hwalk]
  by_cases hkind : c.kind = kind
  · simp [Node.kind, hkind]
  · simp [Node.kind, hkind]

end Node

namespace Draft

variable {kind : ComponentKind}

-- Whatever ids it gets, no component of the kind is built from the draft.
def Lacks (kind : ComponentKind) (draft : Draft) : Prop := ∀ id, (draft.build id).ofKind kind = []

theorem flatMap_ofKind_buildAll {drafts : List Draft} (hlacks : ∀ draft ∈ drafts, draft.Lacks kind)
    (parent : String) (index : Nat) :
    (buildAll parent index drafts).flatMap (Node.ofKind kind) = [] := by
  induction drafts generalizing index with
  | nil => rfl
  | cons draft rest ih =>
    obtain ⟨hdraft, hrest⟩ := List.forall_mem_cons.mp hlacks
    rw [buildAll, List.flatMap_cons, hdraft, ih hrest, List.nil_append]

theorem lacks_layout {layoutKind : LayoutKind} {spacing : Spacing} {children : List Draft}
    (hlacks : ∀ child ∈ children, child.Lacks kind) :
    (layout layoutKind spacing children).Lacks kind := by
  intro id
  rw [build, Node.ofKind_layout]
  exact flatMap_ofKind_buildAll hlacks id 0

-- A component with nothing in it.
theorem lacks_leaf {draft : ComponentDraft} (hchildren : draft.children = [])
    (hkind : draft.kind ≠ kind) : (component draft).Lacks kind := by
  intro id
  have hnone : (draft.build id).children = [] := by
    obtain ⟨draftKind, props, children⟩ := draft
    obtain rfl : children = [] := hchildren
    rfl
  rw [build, Node.ofKind_leaf hnone, draft.kind_build, if_neg hkind]

-- What is made of pieces lacks the parts of a page that may not be placed.
theorem MadeOf.lacks {p : Placeholders} {may : Concept → Prop} {depth : Nat} {draft : Draft}
    (hdraft : draft.MadeOf (Template.Piece p may) depth) {concept : Concept}
    (hpart : kind.part? = some concept) (hnot : ¬ may concept) : draft.Lacks kind := by
  intro id
  rw [Node.ofKind, List.filter_eq_nil_iff]
  intro node hnode hkind
  obtain ⟨base, hbase, rfl⟩ := hdraft.exists_kind_eq hnode (beq_iff_eq.mp hkind)
  exact hnot (hbase.may_of_part hpart)

end Draft

namespace Template

open Instruction Draft

variable {p : Placeholders} {hasSidebar hasNavbar : Bool} {body : List Draft}

-- A body without further navigation.
def IsBody (body : List Draft) : Prop :=
  ∀ child ∈ body, child.Lacks .sidebar ∧ child.Lacks .navbar

theorem isBody_of_madeOf {depth : Nat}
    (hbody : ∀ child ∈ body, child.MadeOf (Piece p fun c => c = .chart ∨ c = .table) depth) :
    IsBody body := by
  intro child hchild
  exact ⟨(hbody child hchild).lacks rfl (by decide), (hbody child hchild).lacks rfl (by decide)⟩

-- What stands beside the sidebar, or alone.
def mainDraft (p : Placeholders) (hasNavbar : Bool) (body : List Draft) : Draft :=
  (column ((if hasNavbar then [component (navbar p)] else []) ++ body)).toDraft

theorem lacks_mainDraft (hbody : IsBody body) (p : Placeholders) (hasNavbar : Bool) :
    (mainDraft p hasNavbar body).Lacks .sidebar := by
  apply lacks_layout
  refine List.forall_mem_append.mpr ⟨?_, fun child hchild => (hbody child hchild).1⟩
  cases hasNavbar with
  | false => exact List.forall_mem_nil _
  | true => exact List.forall_mem_singleton.mpr (lacks_leaf rfl nofun)

theorem ofKind_build_mainDraft (hbody : IsBody body) (p : Placeholders) (id : String) :
    ((mainDraft p true body).build id).ofKind .navbar =
      [.component ((navbar p).build (nodeId (some id) (.component .navbar) 0))] := by
  have hrest : (buildAll id 1 body).flatMap (Node.ofKind .navbar) = [] :=
    flatMap_ofKind_buildAll (fun child hchild => (hbody child hchild).2) id 1
  have hnavbar : (Node.component ((navbar p).build (nodeId (some id) (.component .navbar) 0))).ofKind
      .navbar = [.component ((navbar p).build (nodeId (some id) (.component .navbar) 0))] :=
    Node.ofKind_leaf rfl
  show (Node.layout id .column {} (buildAll id 0 (component (navbar p) :: body))).ofKind .navbar = _
  rw [Node.ofKind_layout, buildAll, List.flatMap_cons, hrest, List.append_nil]
  exact hnavbar

-- A row with the only sidebar in front.
def LeadsWithSidebar (root : Layout) : Prop :=
  root.kind = .row ∧ ∃ c rest, root.children = .component c :: rest ∧ c.kind = .sidebar ∧
    root.toNode.ofKind .sidebar = [.component c]

def HasOneNavbar (root : Layout) : Prop := ∃ c, root.toNode.ofKind .navbar = [.component c]

theorem leadsWithSidebar_build_shell (hbody : IsBody body) (q : Placeholders) :
    LeadsWithSidebar (spaced q (shell p true hasNavbar body)).build := by
  let root := (spaced q (shell p true hasNavbar body)).build
  let first := (sidebar p).build (nodeId (some root.id) (.component .sidebar) 0)
  let main := (mainDraft p hasNavbar body).build (nodeId (some root.id) (.layout .column) 1)
  have hchildren : root.children = [.component first, main] := rfl
  have hfirst : (Node.component first).ofKind .sidebar = [.component first] := Node.ofKind_leaf rfl
  have hmain : main.ofKind .sidebar = [] := lacks_mainDraft hbody p hasNavbar _
  refine ⟨rfl, first, [main], hchildren, rfl, ?_⟩
  rw [Layout.toNode, Node.ofKind_layout, hchildren, List.flatMap_cons, List.flatMap_singleton, hfirst,
    hmain]
  rfl

-- The navbar is in the column, also beside a sidebar.
theorem hasOneNavbar_build_shell (hbody : IsBody body) (q : Placeholders) :
    HasOneNavbar (spaced q (shell p hasSidebar true body)).build := by
  cases hasSidebar with
  | false => exact ⟨_, ofKind_build_mainDraft hbody p _⟩
  | true =>
    let root := (spaced q (shell p true true body)).build
    let first := (sidebar p).build (nodeId (some root.id) (.component .sidebar) 0)
    let mainId := nodeId (some root.id) (.layout .column) 1
    have hchildren : root.children = [.component first, (mainDraft p true body).build mainId] := rfl
    have hfirst : (Node.component first).ofKind .navbar = [] := Node.ofKind_leaf rfl
    refine ⟨(navbar p).build (nodeId (some mainId) (.component .navbar) 0), ?_⟩
    rw [Layout.toNode, Node.ofKind_layout, hchildren, List.flatMap_cons, List.flatMap_singleton,
      hfirst, List.nil_append]
    exact ofKind_build_mainDraft hbody p mainId

variable {features : Features} {rule : Rule}

-- No rule is drawn that comes after one that applies.
theorem mem_take_of_applies (hselect : select? features = some rule) (place : Nat) {early : Rule}
    (hearly : catalogue[place]? = some early) (happlies : early.applies features = true) :
    rule ∈ catalogue.take (place + 1) := by
  have hmem : early ∈ catalogue.take (place + 1) := by
    apply List.mem_of_getElem?
    rwa [List.getElem?_take_of_lt (Nat.lt_succ_self place)]
  have hsome : ((catalogue.take (place + 1)).find? (·.applies features)).isSome :=
    List.find?_isSome.mpr ⟨early, hmem, happlies⟩
  obtain ⟨found, hfound⟩ := Option.isSome_iff_exists.mp hsome
  have hsame : select? features = some found := by
    rw [select?, ← List.take_append_drop (place + 1) catalogue, List.find?_append, hfound,
      Option.some_or]
  rw [hselect] at hsame
  rw [Option.some.inj hsame]
  exact List.mem_of_find?_eq_some hfound

-- What is drawn is a shell with the navigation that is asked for.
theorem exists_shell_eq_draw (context : Context) (hselect : select? context.features = some rule)
    (hkept : ∀ concept, context.features.has concept = true →
      context.features.lacks concept = false)
    (hasked : context.features.has .sidebar = true ∨ context.features.has .navbar = true) :
    ∃ hasSidebar hasNavbar body,
      rule.draw context = shell context.placeholders hasSidebar hasNavbar body ∧ IsBody body ∧
        (context.features.has .sidebar = true → hasSidebar = true) ∧
        (context.features.has .navbar = true → hasNavbar = true) := by
  have hsplit : IsBody [(splitRow context).toDraft] :=
    isBody_of_madeOf <| List.forall_mem_singleton.mpr <|
      madeOf_splitRow (fun _ => .inl rfl) (fun _ => .inr rfl)
  have hplain : IsBody (mainContent context) :=
    isBody_of_madeOf (madeOf_mainContent (fun _ => .inl rfl) (fun _ => .inr rfl))
  have hdashboard : IsBody (dashboardBody context) :=
    isBody_of_madeOf (madeOf_dashboardBody (fun _ => .inl rfl) (fun _ => .inr rfl))
  have happlies : rule.applies context.features = true := by simpa using List.find?_some hselect
  have hmem : rule ∈ catalogue.take 7 := by
    rcases hasked with hsidebar | hnavbar
    · have hfive := mem_take_of_applies hselect 4 rfl (by simpa [Rule.applies] using hsidebar)
      exact List.take_subset_take_left _ (by decide) hfive
    · exact mem_take_of_applies hselect 6 rfl (by simpa [Rule.applies] using hnavbar)
  simp only [catalogue, List.take_succ_cons, List.take_zero, List.mem_cons, List.not_mem_nil,
    or_false] at hmem
  rcases hmem with rfl | rfl | rfl | rfl | rfl | rfl | rfl
  · exact ⟨true, true, _, rfl, hsplit, fun _ => rfl, fun _ => rfl⟩
  · refine ⟨_, _, _, dashboard_eq context, hdashboard, fun hsidebar => ?_, fun hnavbar => ?_⟩
    · rw [hkept .sidebar hsidebar]
      rfl
    · rw [hkept .navbar hnavbar]
      rfl
  · exact ⟨true, true, _, rfl, hplain, fun _ => rfl, fun _ => rfl⟩
  -- with the other part of the navigation asked for, an earlier rule would have been drawn
  · refine ⟨true, false, _, rfl, hsplit, fun _ => rfl, fun hnavbar => ?_⟩
    simp only [Rule.applies, List.all_cons, List.all_nil, Bool.and_true, Bool.and_eq_true]
      at happlies
    have hearlier := mem_take_of_applies hselect 0 rfl (by simp [Rule.applies, happlies, hnavbar])
    simp [catalogue] at hearlier
  · refine ⟨true, false, _, rfl, hplain, fun _ => rfl, fun hnavbar => ?_⟩
    simp only [Rule.applies, List.all_cons, List.all_nil, Bool.and_true] at happlies
    have hearlier := mem_take_of_applies hselect 2 rfl (by simp [Rule.applies, happlies, hnavbar])
    simp [catalogue] at hearlier
  · refine ⟨false, true, _, rfl, hsplit, fun hsidebar => ?_, fun _ => rfl⟩
    have hearlier := mem_take_of_applies hselect 4 rfl (by simp [Rule.applies, hsidebar])
    simp [catalogue] at hearlier
  · refine ⟨false, true, _, rfl, hplain, fun hsidebar => ?_, fun _ => rfl⟩
    have hearlier := mem_take_of_applies hselect 4 rfl (by simp [Rule.applies, hsidebar])
    simp [catalogue] at hearlier

-- A card with a single chart, table or text in it.
def IsPane (c : Component) : Prop :=
  c.kind = .card ∧ ∃ part, c.children = [part] ∧ part.children = [] ∧
    (part.kind = .chart ∨ part.kind = .table ∨ part.kind = .text)

-- A row of a sidebar and a column, which holds a navbar and a row of two cards, and nothing else.
def IsSplitShell (root : Layout) : Prop :=
  root.kind = .row ∧ ∃ first columnId columnSpacing top rowId rowSpacing left right,
    root.children = [.component first, .layout columnId .column columnSpacing
      [.component top, .layout rowId .row rowSpacing [.component left, .component right]]] ∧
    first.kind = .sidebar ∧ first.children = [] ∧ top.kind = .navbar ∧ top.children = [] ∧
    IsPane left ∧ IsPane right

-- The cards are two of these.
def IsPaneDraft (p : Placeholders) (draft : ComponentDraft) : Prop :=
  draft = chartCard p ∨ draft = tableCard p ∨ draft = textCard p

theorem IsPaneDraft.build {draft : ComponentDraft} (h : IsPaneDraft p draft) (id : String) :
    IsPane (draft.build id) := by
  rcases h with rfl | rfl | rfl
  · exact ⟨rfl, _, rfl, rfl, .inl rfl⟩
  · exact ⟨rfl, _, rfl, rfl, .inr (.inl rfl)⟩
  · exact ⟨rfl, _, rfl, rfl, .inr (.inr rfl)⟩

theorem exists_splitCards_eq (context : Context) : ∃ left right,
    splitCards context = [left, right] ∧ IsPaneDraft context.placeholders left ∧
      IsPaneDraft context.placeholders right := by
  rw [splitCards, requestedCards]
  cases context.features.has .chart with
  | true =>
    cases context.features.has .table with
    | true => exact ⟨_, _, rfl, .inl rfl, .inr (.inl rfl)⟩
    | false => exact ⟨_, _, rfl, .inl rfl, .inr (.inr rfl)⟩
  | false =>
    cases context.features.has .table with
    | true => exact ⟨_, _, rfl, .inr (.inl rfl), .inr (.inr rfl)⟩
    | false => exact ⟨_, _, rfl, .inr (.inr rfl), .inr (.inr rfl)⟩

theorem isSplitShell_build (context : Context) (q : Placeholders) :
    IsSplitShell (spaced q (splitShell true true context)).build := by
  obtain ⟨left, right, hcards, hleft, hright⟩ := exists_splitCards_eq context
  rw [splitShell, splitRow, hcards]
  exact ⟨rfl, _, _, _, _, _, _, _, _, rfl, rfl, rfl, rfl, rfl, hleft.build _, hright.build _⟩

-- A root that has the parts of the shell that are required.
structure KeepsShell (required : Concept → Prop) (root : Layout) : Prop where
  sidebar : required .sidebar → LeadsWithSidebar root
  navbar : required .navbar → HasOneNavbar root
  split : required .sidebar → required .navbar → required .twoColumns → IsSplitShell root

theorem keepsShell_build_draw (context : Context) (hselect : select? context.features = some rule)
    (hkept : ∀ concept, context.features.has concept = true →
      context.features.lacks concept = false) (q : Placeholders) :
    KeepsShell (context.features.has · = true) (spaced q (rule.draw context)).build := by
  constructor
  · intro hsidebar
    obtain ⟨hasSidebar, hasNavbar, body, hdraw, hbody, hgiven, -⟩ :=
      exists_shell_eq_draw context hselect hkept (.inl hsidebar)
    obtain rfl := hgiven hsidebar
    rw [hdraw]
    exact leadsWithSidebar_build_shell hbody q
  · intro hnavbar
    obtain ⟨hasSidebar, hasNavbar, body, hdraw, hbody, -, hgiven⟩ :=
      exists_shell_eq_draw context hselect hkept (.inr hnavbar)
    obtain rfl := hgiven hnavbar
    rw [hdraw]
    exact hasOneNavbar_build_shell hbody q
  · intro hsidebar hnavbar hcolumns
    have hfirst := mem_take_of_applies hselect 0 rfl
      (by simp [Rule.applies, hsidebar, hnavbar, hcolumns])
    simp only [catalogue, List.take_succ_cons, List.take_zero, List.mem_singleton] at hfirst
    rw [hfirst]
    exact isSplitShell_build context q

-- The parts of the shell are as an instruction requires them, whatever else it says: with a sidebar it
-- is a row with the only one in front, with a navbar there is exactly one, and with both and two
-- columns it is the split shell.
theorem synthesize_keeps_shell (config : Config) (p : Placeholders) (text : List Char) :
    ∃ root, synthesize p (classify config false text).intent = .ok root ∧
      KeepsShell (requires text · = true) root := by
  have hintent : (classify config false text).intent = freshIntent config.placeholders text := rfl
  rw [hintent, freshIntent]
  cases hminimality : minimality? text with
  | some source =>
    -- nothing of the shell is required
    have hplain (concept : Concept) (hconcept : concept ∈ Concept.complex) :
        ¬ requires text concept = true := by
      intro hrequired
      rw [minimality?_eq_none hconcept hrequired] at hminimality
      cases hminimality
    exact ⟨_, rfl, fun h => absurd h (hplain .sidebar (by decide)),
      fun h => absurd h (hplain .navbar (by decide)),
      fun h => absurd h (hplain .sidebar (by decide))⟩
  | none =>
    obtain ⟨rule, -, hselect⟩ := exists_select?_eq (Features.ofText text)
    let context : Context := ⟨Features.ofText text, fields text, p⟩
    have hroot : synthesize p (.structured (Features.ofText text) (fields text)) =
        .ok (spaced p (rule.draw context)).build := by
      simp only [synthesize, Template.draft, hselect]
      rfl
    have hkeeps := keepsShell_build_draw context hselect
      (fun _ => Features.lacks_eq_false_of_has) p
    simp only [context, Features.has_ofText] at hkeeps
    exact ⟨_, hroot, hkeeps⟩

-- A text that asks for little, and for much, in many ways.
def crowdedText : List Char :=
  "A minimal admin panel, nothing else: sidebar, navbar, two columns, a pricing table. Only one card".toList

theorem crowdedText_splitShell :
    requires crowdedText .sidebar = true ∧ requires crowdedText .navbar = true ∧
    requires crowdedText .twoColumns = true ∧ mentions crowdedText .dashboard = true ∧
    ∃ root, synthesize {} (classify {} false crowdedText).intent = .ok root ∧ IsSplitShell root := by
  have hsidebar : requires crowdedText .sidebar = true := by decide
  have hnavbar : requires crowdedText .navbar = true := by decide
  have hcolumns : requires crowdedText .twoColumns = true := by decide
  obtain ⟨root, hroot, hkeeps⟩ := synthesize_keeps_shell {} {} crowdedText
  exact ⟨hsidebar, hnavbar, hcolumns, by decide, root, hroot,
    hkeeps.split hsidebar hnavbar hcolumns⟩

end Template

end Wireframe
