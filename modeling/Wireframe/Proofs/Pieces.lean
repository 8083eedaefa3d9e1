import Wireframe.Proofs.Numbering
import Wireframe.Template.Catalogue

namespace Wireframe

open Instruction (Concept Field)

namespace Draft

-- A draft with at most so many levels, of which all components have the kind and the props of some
-- piece.
inductive MadeOf (piece : ComponentDraft → Prop) : Nat → Draft → Prop where
  | layout {depth : Nat} {kind : LayoutKind} {spacing : Spacing} {children : List Draft} :
    (∀ child ∈ children, MadeOf piece depth child) →
      MadeOf piece (depth + 1) (.layout kind spacing children)
  | component {depth : Nat} {draft base : ComponentDraft} :
    piece base → draft.kind = base.kind → draft.props = base.props →
      (∀ part ∈ draft.children, MadeOf piece depth (.component part)) →
      MadeOf piece (depth + 1) (.component draft)

variable {piece : ComponentDraft → Prop} {depth : Nat}

theorem MadeOf.succ {draft : Draft} (h : draft.MadeOf piece depth) :
    draft.MadeOf piece (depth + 1) := by
  induction h with
  | layout _ ih => exact .layout ih
  | component hpiece hkind hprops _ ih => exact .component hpiece hkind hprops ih

theorem MadeOf.mono {more : Nat} {draft : Draft} (h : draft.MadeOf piece depth)
    (hle : depth ≤ more) : draft.MadeOf piece more := by
  induction hle with
  | refl => exact h
  | step _ ih => exact ih.succ

theorem MadeOf.toDraft {draft : LayoutDraft}
    (hchildren : ∀ child ∈ draft.children, child.MadeOf piece depth) :
    draft.toDraft.MadeOf piece (depth + 1) :=
  .layout hchildren

end Draft

namespace Template

open Draft

-- The components that templates place, without what is in them. Parts of a page are placed only if
-- they may be.
inductive Piece (p : Placeholders) (may : Concept → Prop) : ComponentDraft → Prop where
  | card (title : String) : Piece p may (card title)
  | subtitledCard (title subtitle : String) : Piece p may (subtitledCard title subtitle)
  | text (content : String) : Piece p may (text content)
  | button (label variant : String) : Piece p may (button label variant)
  | input (field : Field) : Piece p may (input field)
  | modal (title : String) : may .modal → Piece p may (modal title)
  | sidebar : may .sidebar → Piece p may (sidebar p)
  | navbar : may .navbar → Piece p may (navbar p)
  | chart (title : String) : may .chart → Piece p may (chart title p)
  | table : may .table → Piece p may (table p)

variable {p : Placeholders} {may : Concept → Prop} {depth : Nat} {base : ComponentDraft}

theorem Piece.children_eq (hbase : Piece p may base) : base.children = [] := by
  cases hbase <;> rfl

theorem Piece.madeOf (hbase : Piece p may base) : (component base).MadeOf (Piece p may) 1 := by
  refine .component hbase rfl rfl ?_
  rw [hbase.children_eq]
  exact List.forall_mem_nil _

theorem Piece.madeOf_append (hbase : Piece p may base) {parts : List ComponentDraft}
    (hparts : ∀ part ∈ parts, (component part).MadeOf (Piece p may) depth) :
    (component (base.append parts)).MadeOf (Piece p may) (depth + 1) := by
  refine .component hbase rfl rfl ?_
  rw [ComponentDraft.append, hbase.children_eq]
  exact hparts

-- A piece with pieces in it.
theorem Piece.madeOf_append_pieces (hbase : Piece p may base) {parts : List ComponentDraft}
    (hparts : ∀ part ∈ parts, Piece p may part) :
    (component (base.append parts)).MadeOf (Piece p may) 2 :=
  hbase.madeOf_append fun part hpart => (hparts part hpart).madeOf

theorem madeOf_textCard : (component (textCard p)).MadeOf (Piece p may) 2 :=
  (Piece.card _).madeOf_append_pieces (by simpa using .text _)

theorem madeOf_chartCard (hchart : may .chart) : (component (chartCard p)).MadeOf (Piece p may) 2 :=
  (Piece.card _).madeOf_append_pieces (by simpa using .chart _ hchart)

theorem madeOf_tableCard (htable : may .table) : (component (tableCard p)).MadeOf (Piece p may) 2 :=
  (Piece.card _).madeOf_append_pieces (by simpa using .table htable)

-- A layout of components.
theorem madeOf_components {draft : LayoutDraft} {parts : List ComponentDraft}
    (hchildren : draft.children = components parts)
    (hparts : ∀ part ∈ parts, (component part).MadeOf (Piece p may) depth) :
    draft.toDraft.MadeOf (Piece p may) (depth + 1) := by
  apply MadeOf.toDraft
  rw [hchildren]
  exact List.forall_mem_map.mpr hparts

theorem madeOf_column {part : ComponentDraft}
    (hpart : (component part).MadeOf (Piece p may) depth) :
    (column [.component part]).toDraft.MadeOf (Piece p may) (depth + 1) :=
  .toDraft (List.forall_mem_singleton.mpr hpart)

theorem madeOf_shell {hasSidebar hasNavbar : Bool} (hsidebar : hasSidebar = true → may .sidebar)
    (hnavbar : hasNavbar = true → may .navbar) {body : List Draft}
    (hbody : ∀ child ∈ body, child.MadeOf (Piece p may) 3) :
    (shell p hasSidebar hasNavbar body).toDraft.MadeOf (Piece p may) 5 := by
  let above : List Draft := if hasNavbar then [component (navbar p)] else []
  have habove : ∀ child ∈ above, child.MadeOf (Piece p may) 3 := by
    cases hasNavbar with
    | true =>
      exact List.forall_mem_singleton.mpr ((Piece.navbar (hnavbar rfl)).madeOf.mono (by decide))
    | false => simp [above]
  have hmain : (column (above ++ body)).toDraft.MadeOf (Piece p may) 4 :=
    .toDraft (List.forall_mem_append.mpr ⟨habove, hbody⟩)
  cases hasSidebar with
  | false => exact hmain.succ
  | true =>
    exact .toDraft (List.forall_mem_cons.mpr
      ⟨(Piece.sidebar (hsidebar rfl)).madeOf.mono (by decide), List.forall_mem_singleton.mpr hmain⟩)

-- Charts and then tables, if there are any.
theorem madeOf_of_mem_cards {charts tables : List ComponentDraft}
    (hcharts : ∀ card ∈ charts, card = chartCard p ∧ may .chart)
    (htables : ∀ card ∈ tables, card = tableCard p ∧ may .table) :
    ∀ card ∈ charts ++ tables, (component card).MadeOf (Piece p may) 2 := by
  intro card hcard
  rcases List.mem_append.mp hcard with hchart | htable
  · obtain ⟨rfl, hmay⟩ := hcharts card hchart
    exact madeOf_chartCard hmay
  · obtain ⟨rfl, hmay⟩ := htables card htable
    exact madeOf_tableCard hmay

variable {context : Context}

-- What may be placed on a page: whatever is asked for.
def Asked (context : Context) (may : Concept → Prop) : Prop :=
  ∀ concept, context.features.has concept = true → may concept

section Cards

variable (hchart : context.features.has .chart = true → may .chart)
  (htable : context.features.has .table = true → may .table)

include hchart htable

theorem madeOf_requestedCards :
    ∀ card ∈ requestedCards context,
      (component card).MadeOf (Piece context.placeholders may) 2 := by
  apply madeOf_of_mem_cards
  · split
    · next hasked => simpa using hchart hasked
    · exact List.forall_mem_nil _
  · split
    · next hasked => simpa using htable hasked
    · exact List.forall_mem_nil _

theorem madeOf_splitRow : (splitRow context).toDraft.MadeOf (Piece context.placeholders may) 3 := by
  apply madeOf_components rfl
  refine List.forall_mem_append.mpr ⟨madeOf_requestedCards hchart htable, fun card hcard => ?_⟩
  rw [List.eq_of_mem_replicate hcard]
  exact madeOf_textCard

theorem madeOf_mainContent :
    ∀ child ∈ mainContent context, child.MadeOf (Piece context.placeholders may) 3 := by
  have hcards := madeOf_requestedCards hchart htable
  rw [mainContent]
  split
  · exact List.forall_mem_singleton.mpr madeOf_textCard.succ
  · next only hrequested =>
    rw [hrequested] at hcards
    exact List.forall_mem_singleton.mpr (hcards only List.mem_cons_self).succ
  · exact List.forall_mem_singleton.mpr (madeOf_splitRow hchart htable)

end Cards

theorem Asked.madeOf_splitShell (hasked : Asked context may) {hasSidebar hasNavbar : Bool}
    (hsidebar : hasSidebar = true → may .sidebar) (hnavbar : hasNavbar = true → may .navbar) :
    (splitShell hasSidebar hasNavbar context).toDraft.MadeOf (Piece context.placeholders may) 5 :=
  madeOf_shell hsidebar hnavbar
    (List.forall_mem_singleton.mpr (madeOf_splitRow (hasked .chart) (hasked .table)))

theorem Asked.madeOf_plainShell (hasked : Asked context may) {hasSidebar hasNavbar : Bool}
    (hsidebar : hasSidebar = true → may .sidebar) (hnavbar : hasNavbar = true → may .navbar) :
    (plainShell hasSidebar hasNavbar context).toDraft.MadeOf (Piece context.placeholders may) 5 :=
  madeOf_shell hsidebar hnavbar (madeOf_mainContent (hasked .chart) (hasked .table))

theorem madeOf_statsGrid : (statsGrid p).toDraft.MadeOf (Piece p may) 2 :=
  madeOf_components rfl (List.forall_mem_map.mpr fun _ _ => (Piece.subtitledCard _ _).madeOf)

-- What a dashboard has besides sidebar and navbar.
def dashboardBody (context : Context) : List Draft :=
  let p := context.placeholders
  let lacks := context.features.lacks
  let insights :=
    (if lacks .chart then [] else [chartCard p]) ++ if lacks .table then [] else [tableCard p]
  (statsGrid p).toDraft :: if insights.isEmpty then [] else [(row (components insights)).toDraft]

theorem dashboard_eq (context : Context) :
    dashboard context = shell context.placeholders (!context.features.lacks .sidebar)
      (!context.features.lacks .navbar) (dashboardBody context) := rfl

theorem madeOf_dashboardBody (hchart : context.features.lacks .chart = false → may .chart)
    (htable : context.features.lacks .table = false → may .table) :
    ∀ child ∈ dashboardBody context, child.MadeOf (Piece context.placeholders may) 3 := by
  let insights :=
    (if context.features.lacks .chart then [] else [chartCard context.placeholders]) ++
      if context.features.lacks .table then [] else [tableCard context.placeholders]
  have hinsights :
      ∀ card ∈ insights, (component card).MadeOf (Piece context.placeholders may) 2 := by
    apply madeOf_of_mem_cards
    · split
      · exact List.forall_mem_nil _
      · next hkept => simpa using hchart (Bool.not_eq_true _ ▸ hkept)
    · split
      · exact List.forall_mem_nil _
      · next hkept => simpa using htable (Bool.not_eq_true _ ▸ hkept)
  refine List.forall_mem_cons.mpr ⟨madeOf_statsGrid.succ, ?_⟩
  by_cases hempty : insights.isEmpty
  · simp [insights, hempty]
  · simpa [insights, hempty] using madeOf_components rfl hinsights

-- A dashboard places all parts that are not excluded.
theorem madeOf_dashboard
    (hkept : ∀ concept, context.features.lacks concept = false → may concept) :
    (dashboard context).toDraft.MadeOf (Piece context.placeholders may) 5 := by
  rw [dashboard_eq]
  apply madeOf_shell
  · exact fun hsidebar => hkept .sidebar (Bool.not_eq_true' _ ▸ hsidebar)
  · exact fun hnavbar => hkept .navbar (Bool.not_eq_true' _ ▸ hnavbar)
  · exact madeOf_dashboardBody (hkept .chart) (hkept .table)

theorem Asked.madeOf_form (hasked : Asked context may) (title : String) (labels : List String)
    (submit : String) :
    (form title labels submit context).toDraft.MadeOf (Piece context.placeholders may) 3 := by
  have hcontainer : Piece context.placeholders may
      (if context.features.has .modal then modal title else card title) := by
    split
    · next hmodal => exact .modal title (hasked .modal hmodal)
    · exact .card title
  apply madeOf_column
  apply hcontainer.madeOf_append_pieces
  refine List.forall_mem_append.mpr ⟨?_, List.forall_mem_singleton.mpr (.button _ _)⟩
  exact List.forall_mem_map.mpr fun field _ => .input field

-- Cards with pieces in them, one for each item.
theorem madeOf_cards {α : Type} {draft : LayoutDraft} {items : List α} {base : α → ComponentDraft}
    {parts : α → List ComponentDraft}
    (hchildren :
      draft.children = components (items.map fun item => (base item).append (parts item)))
    (hbase : ∀ item, Piece p may (base item))
    (hparts : ∀ item, ∀ part ∈ parts item, Piece p may part) :
    draft.toDraft.MadeOf (Piece p may) 3 :=
  madeOf_components hchildren <| List.forall_mem_map.mpr fun item _ =>
    (hbase item).madeOf_append_pieces (hparts item)

theorem madeOf_kanban : (kanban context).toDraft.MadeOf (Piece context.placeholders may) 3 :=
  madeOf_cards rfl (fun _ => .card _) fun _ => List.forall_mem_singleton.mpr (.text _)

theorem madeOf_pricing : (pricing context).toDraft.MadeOf (Piece context.placeholders may) 3 :=
  madeOf_cards rfl (fun _ => .subtitledCard _ _) fun _ =>
    List.forall_mem_cons.mpr ⟨.text _, List.forall_mem_singleton.mpr (.button _ _)⟩

theorem madeOf_gallery : (gallery context).toDraft.MadeOf (Piece context.placeholders may) 2 :=
  madeOf_components rfl (List.forall_mem_map.mpr fun _ _ => (Piece.card _).madeOf)

theorem madeOf_tableAndChart (htable : may .table) (hchart : may .chart) :
    (tableAndChart context).toDraft.MadeOf (Piece context.placeholders may) 3 :=
  madeOf_components rfl <|
    List.forall_mem_cons.mpr
      ⟨madeOf_chartCard hchart, List.forall_mem_singleton.mpr (madeOf_tableCard htable)⟩

theorem madeOf_profile : (profile context).toDraft.MadeOf (Piece context.placeholders may) 3 :=
  madeOf_column <| (Piece.card _).madeOf_append_pieces <|
    List.forall_mem_cons.mpr ⟨.text _, List.forall_mem_singleton.mpr (.button _ _)⟩

theorem madeOf_landing (hnavbar : may .navbar) :
    (landing context).toDraft.MadeOf (Piece context.placeholders may) 3 := by
  apply madeOf_components rfl
  refine List.forall_mem_cons.mpr ⟨(Piece.navbar hnavbar).madeOf.succ, ?_⟩
  exact List.forall_mem_singleton.mpr
    ((Piece.subtitledCard _ _).madeOf_append_pieces (by simpa using .button _ _))

theorem madeOf_modalOnly (hmodal : may .modal) :
    (modalOnly context).toDraft.MadeOf (Piece context.placeholders may) 3 := by
  apply madeOf_column
  apply (Piece.modal _ hmodal).madeOf_append_pieces
  refine List.forall_mem_append.mpr ⟨?_, List.forall_mem_singleton.mpr (.button _ _)⟩
  exact List.forall_mem_cons.mpr ⟨.text _, List.forall_mem_map.mpr fun field _ => .input field⟩

-- Whichever template applies, its draft is made of pieces that may be placed.
theorem Asked.madeOf_of_mem_catalogue (hasked : Asked context may)
    (hkept : ∀ concept, context.features.lacks concept = false → may concept) :
    ∀ rule ∈ catalogue, rule.applies context.features = true →
      (rule.name = "landing" → may .navbar) →
      (rule.draw context).toDraft.MadeOf (Piece context.placeholders may) 5 := by
  have hneeds {needs : List Concept} {concept : Concept}
      (happlies : needs.all context.features.has = true) (hconcept : concept ∈ needs) :
      may concept :=
    hasked concept (List.all_eq_true.mp happlies concept hconcept)
  have hform (title : String) (labels : List String) (submit : String) :
      (form title labels submit context).toDraft.MadeOf (Piece context.placeholders may) 5 :=
    (hasked.madeOf_form title labels submit).mono (by decide)
  simp only [catalogue, List.forall_mem_cons]
  exact ⟨
    fun h _ => hasked.madeOf_splitShell (fun _ => hneeds h (by simp)) fun _ => hneeds h (by simp),
    fun _ _ => madeOf_dashboard hkept,
    fun h _ => hasked.madeOf_plainShell (fun _ => hneeds h (by simp)) fun _ => hneeds h (by simp),
    fun h _ => hasked.madeOf_splitShell (fun _ => hneeds h (by simp)) nofun,
    fun h _ => hasked.madeOf_plainShell (fun _ => hneeds h (by simp)) nofun,
    fun h _ => hasked.madeOf_splitShell nofun fun _ => hneeds h (by simp),
    fun h _ => hasked.madeOf_plainShell nofun fun _ => hneeds h (by simp),
    fun _ _ => (madeOf_splitRow (hasked .chart) (hasked .table)).mono (by decide),
    fun _ _ => hform _ _ _,
    fun _ _ => hform _ _ _,
    fun _ _ => hform _ _ _,
    fun _ _ => hform _ _ _,
    fun _ _ => hform _ _ _,
    fun _ _ => madeOf_kanban.mono (by decide),
    fun _ _ => madeOf_pricing.mono (by decide),
    fun _ _ => madeOf_gallery.mono (by decide),
    fun _ _ => madeOf_statsGrid.mono (by decide),
    fun _ hlanding => (madeOf_landing (hlanding trivial)).mono (by decide),
    fun h _ => (madeOf_tableAndChart (hneeds h (by simp)) (hneeds h (by simp))).mono (by decide),
    fun h _ => (madeOf_column (madeOf_tableCard (hneeds h (by simp)))).mono (by decide),
    fun h _ => (madeOf_column (madeOf_chartCard (hneeds h (by simp)))).mono (by decide),
    fun h _ => (madeOf_modalOnly (hneeds h (by simp))).mono (by decide),
    fun _ _ => madeOf_profile.mono (by decide),
    fun _ _ => (madeOf_column madeOf_textCard).mono (by decide),
    List.forall_mem_nil _⟩

end Template

end Wireframe
