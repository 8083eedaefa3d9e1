import Wireframe.Config.Problem
import Wireframe.Proofs.Pieces
import Wireframe.Proofs.Regular

namespace Wireframe

open Instruction (Field)

namespace Json

theorem forbidden?_array_map {α : Type} {toJson : α → Json} {items : List α}
    (hitems : ∀ item ∈ items, forbidden? (toJson item) = none) :
    forbidden? (.array (items.map toJson)) = none := by
  rw [forbidden?]
  induction items with
  | nil => rfl
  | cons item rest ih =>
    obtain ⟨hitem, hrest⟩ := List.forall_mem_cons.mp hitems
    rw [List.map_cons, forbiddenInItems?, hitem, ih hrest]
    rfl

theorem forbidden?_strings (items : List String) : forbidden? (strings items) = none :=
  forbidden?_array_map fun _ _ => rfl

theorem forbiddenInFields?_cons {key : String} {value : Json} {rest : Fields}
    (hkey : isForbiddenKey key = false) (hvalue : forbidden? value = none)
    (hrest : forbiddenInFields? rest = none) :
    forbiddenInFields? ((key, value) :: rest) = none := by
  rw [forbiddenInFields?, hkey, hvalue, hrest]
  rfl

end Json

namespace Draft

variable {depth : Nat}

theorem clean_component {draft : ComponentDraft}
    (hclean : Json.forbiddenInFields? draft.props = none) (id : String) :
    ((component draft).build id).markup? = none := by
  cases draft
  exact Option.map_eq_none_iff.mpr hclean

-- A component may be empty.
theorem sound_component {draft : ComponentDraft}
    (hfew : (component draft).children.length ≤ numberBound)
    (hclean : ∀ id, ((component draft).build id).markup? = none) : (component draft).Sound :=
  ⟨fun hrole => Role.noConfusion hrole, hfew, hclean⟩

-- A part without anything in it.
theorem fits_part {draft : ComponentDraft} (hclean : Json.forbiddenInFields? draft.props = none)
    (hchildren : draft.children = []) : (component draft).Fits 0 := by
  have hnone : (component draft).children = [] := by rw [children, hchildren, List.map_nil]
  exact ⟨sound_component (by simp [hnone]) (clean_component hclean), hnone⟩

-- A part with other parts in it.
theorem fits_append {draft : ComponentDraft} (hdraft : (component draft).Fits 0)
    {parts : List ComponentDraft} (hfew : parts.length ≤ numberBound)
    (hparts : ∀ part ∈ parts, (component part).Fits 0) :
    (component (draft.append parts)).Fits 1 := by
  obtain ⟨hsound, hnone⟩ := hdraft
  obtain ⟨kind, props, first⟩ := draft
  obtain rfl : first = [] := List.map_eq_nil_iff.mp hnone
  refine ⟨sound_component ?_ hsound.clean, ?_⟩
  · simpa [ComponentDraft.append, children] using hfew
  · intro child hchild
    obtain ⟨part, hpart, rfl⟩ := List.mem_map.mp hchild
    exact hparts part hpart

theorem fits_toDraft_iff {draft : LayoutDraft} :
    draft.toDraft.Fits (depth + 1) ↔ draft.children ≠ [] ∧ draft.children.length ≤ numberBound ∧
      ∀ child ∈ draft.children, child.Fits depth :=
  ⟨fun ⟨hsound, hchildren⟩ => ⟨hsound.filled rfl, hsound.few, hchildren⟩,
    fun ⟨hfilled, hfew, hchildren⟩ => ⟨⟨fun _ => hfilled, hfew, fun _ => rfl⟩, hchildren⟩⟩

end Draft

namespace Template

open Draft

theorem fits_navbar (p : Placeholders) : (component (navbar p)).Fits 0 :=
  fits_part (Json.forbiddenInFields?_cons rfl rfl
    (Json.forbiddenInFields?_cons rfl (Json.forbidden?_strings _) rfl)) rfl

theorem fits_sidebar (p : Placeholders) : (component (sidebar p)).Fits 0 :=
  fits_part (Json.forbiddenInFields?_cons rfl (Json.forbidden?_strings _) rfl) rfl

theorem fits_chart (title : String) (p : Placeholders) : (component (chart title p)).Fits 0 := by
  have hdata : Json.forbidden? (.array (p.chartSeries.map ChartPoint.toJson)) = none :=
    Json.forbidden?_array_map fun _ _ => rfl
  exact fits_part (Json.forbiddenInFields?_cons rfl rfl
    (Json.forbiddenInFields?_cons rfl rfl (Json.forbiddenInFields?_cons rfl hdata rfl))) rfl

theorem fits_table (p : Placeholders) : (component (table p)).Fits 0 := by
  have hrows : Json.forbidden? (.array (p.tableRows.map .strings)) = none :=
    Json.forbidden?_array_map fun row _ => Json.forbidden?_strings row
  exact fits_part (Json.forbiddenInFields?_cons rfl (Json.forbidden?_strings _)
    (Json.forbiddenInFields?_cons rfl hrows rfl)) rfl

-- A container with a single part in it.
theorem fits_append_singleton {draft part : ComponentDraft} (hdraft : (component draft).Fits 0)
    (hpart : (component part).Fits 0) : (component (draft.append [part])).Fits 1 := by
  apply fits_append hdraft
  · simp [numberBound, UInt64.size]
  · simpa using hpart

theorem fits_chartCard (p : Placeholders) : (component (chartCard p)).Fits 1 :=
  fits_append_singleton (fits_part rfl rfl) (fits_chart _ p)

theorem fits_tableCard (p : Placeholders) : (component (tableCard p)).Fits 1 :=
  fits_append_singleton (fits_part rfl rfl) (fits_table p)

theorem fits_textCard (p : Placeholders) : (component (textCard p)).Fits 1 :=
  fits_append_singleton (fits_part rfl rfl) (fits_part rfl rfl)

-- There is something to show, and what there is can be counted in words.
structure Drawable (p : Placeholders) : Prop where
  statCards : p.statCards ≠ []
  pricingTiers : p.pricingTiers ≠ []
  kanbanLanes : p.kanbanLanes ≠ []
  gallery : p.gallerySize ≠ 0
  fewStatCards : p.statCards.length ≤ numberBound
  fewPricingTiers : p.pricingTiers.length ≤ numberBound
  fewKanbanLanes : p.kanbanLanes.length ≤ numberBound

-- A layout that shows a part for each item.
theorem fits_mapped {α : Type} {draft : LayoutDraft} {items : List α} {part : α → ComponentDraft}
    {depth : Nat} (hchildren : draft.children = components (items.map part)) (hitems : items ≠ [])
    (hfew : items.length ≤ numberBound)
    (hparts : ∀ item ∈ items, (component (part item)).Fits depth) :
    draft.toDraft.Fits (depth + 1) := by
  rw [fits_toDraft_iff, hchildren, components, List.map_map]
  refine ⟨by simpa using hitems, by simpa using hfew, ?_⟩
  rw [List.forall_mem_map]
  exact hparts

-- A layout with two parts at most.
theorem fits_pair {draft : LayoutDraft} {depth : Nat} (hfilled : draft.children ≠ [])
    (hfew : draft.children.length ≤ 2) (hchildren : ∀ child ∈ draft.children, child.Fits depth) :
    draft.toDraft.Fits (depth + 1) :=
  fits_toDraft_iff.mpr ⟨hfilled, Nat.le_trans hfew (by simp [numberBound, UInt64.size]), hchildren⟩

-- Charts and then tables, if there are any.
theorem fits_of_mem_cards (p : Placeholders) {charts tables : List ComponentDraft}
    (hcharts : ∀ card ∈ charts, card = chartCard p)
    (htables : ∀ card ∈ tables, card = tableCard p) :
    ∀ card ∈ charts ++ tables, (component card).Fits 1 := by
  intro card hcard
  rcases List.mem_append.mp hcard with hchart | htable
  · rw [hcharts card hchart]
    exact fits_chartCard p
  · rw [htables card htable]
    exact fits_tableCard p

theorem fits_of_mem_requestedCards (context : Context) :
    ∀ card ∈ requestedCards context, (component card).Fits 1 := by
  apply fits_of_mem_cards context.placeholders
  · split <;> simp
  · split <;> simp

theorem length_requestedCards_le (context : Context) : (requestedCards context).length ≤ 2 := by
  rw [requestedCards, List.length_append]
  split <;> split <;> simp

theorem fits_splitRow (context : Context) : (splitRow context).toDraft.Fits 2 := by
  have hlength : (splitCards context).length = 2 := by
    have := length_requestedCards_le context
    rw [splitCards, List.length_append, List.length_replicate]
    omega
  have hchildren : (splitRow context).children.length = 2 := by
    rw [splitRow, row, components, List.length_map, hlength]
  apply fits_pair
  · intro hnil
    rw [hnil] at hchildren
    cases hchildren
  · omega
  · intro child hchild
    obtain ⟨card, hcard, rfl⟩ := List.mem_map.mp hchild
    rcases List.mem_append.mp hcard with hcard | hcard
    · exact fits_of_mem_requestedCards context card hcard
    · rw [List.eq_of_mem_replicate hcard]
      exact fits_textCard _

-- Whatever stands around a body adds two levels.
theorem fits_shell {p : Placeholders} {body : List Draft} (hfilled : body ≠ [])
    (hfew : body.length ≤ 2) (hbody : ∀ child ∈ body, child.Fits 2) (hasSidebar hasNavbar : Bool) :
    (shell p hasSidebar hasNavbar body).toDraft.Fits 4 := by
  let above : List Draft := if hasNavbar then [component (navbar p)] else []
  have habove : above.length ≤ 1 ∧ ∀ child ∈ above, child.Fits 2 := by
    cases hasNavbar with
    | true => simpa [above] using (fits_navbar p).mono (Nat.zero_le 2)
    | false => simp [above]
  have hmain : (column (above ++ body)).toDraft.Fits 3 := by
    rw [fits_toDraft_iff]
    refine ⟨List.append_ne_nil_of_right_ne_nil _ hfilled, ?_, ?_⟩
    · rw [column, List.length_append]
      simp only [numberBound, UInt64.size]
      omega
    · exact List.forall_mem_append.mpr ⟨habove.2, hbody⟩
  cases hasSidebar with
  | false => exact hmain.succ
  | true =>
    show (row [component (sidebar p), (column (above ++ body)).toDraft]).toDraft.Fits 4
    apply fits_pair
    · exact List.cons_ne_nil _ _
    · exact Nat.le_refl 2
    · exact List.forall_mem_cons.mpr
        ⟨(fits_sidebar p).mono (Nat.zero_le 3), List.forall_mem_singleton.mpr hmain⟩

theorem fits_shell_singleton {only : Draft} (honly : only.Fits 2) (p : Placeholders)
    (hasSidebar hasNavbar : Bool) : (shell p hasSidebar hasNavbar [only]).toDraft.Fits 4 := by
  apply fits_shell
  · exact List.cons_ne_nil _ _
  · exact Nat.le_succ 1
  · exact List.forall_mem_singleton.mpr honly

theorem fits_splitShell (hasSidebar hasNavbar : Bool) (context : Context) :
    (splitShell hasSidebar hasNavbar context).toDraft.Fits 4 :=
  fits_shell_singleton (fits_splitRow context) ..

theorem fits_plainShell (hasSidebar hasNavbar : Bool) (context : Context) :
    (plainShell hasSidebar hasNavbar context).toDraft.Fits 4 := by
  have hcards := fits_of_mem_requestedCards context
  rw [plainShell, mainContent]
  cases hrequested : requestedCards context with
  | nil => exact fits_shell_singleton (fits_textCard _).succ ..
  | cons first rest =>
    rw [hrequested] at hcards
    cases rest with
    | nil => exact fits_shell_singleton (hcards first List.mem_cons_self).succ ..
    | cons second rest => exact fits_shell_singleton (fits_splitRow context) ..

theorem fits_statsGrid {p : Placeholders} (hp : Drawable p) : (statsGrid p).toDraft.Fits 1 :=
  fits_mapped rfl hp.statCards hp.fewStatCards fun _ _ => fits_part rfl rfl

theorem fits_dashboardBody {context : Context} (hp : Drawable context.placeholders) :
    (dashboardBody context).length ≤ 2 ∧ ∀ child ∈ dashboardBody context, child.Fits 2 := by
  let insights :=
    (if context.features.lacks .chart then [] else [chartCard context.placeholders]) ++
      if context.features.lacks .table then [] else [tableCard context.placeholders]
  let below : List Draft := if insights.isEmpty then [] else [(row (components insights)).toDraft]
  have hinsights : ∀ card ∈ insights, (component card).Fits 1 := by
    apply fits_of_mem_cards context.placeholders
    · split <;> simp
    · split <;> simp
  have hbelow : below.length ≤ 1 ∧ ∀ child ∈ below, child.Fits 2 := by
    by_cases hempty : insights.isEmpty
    · simp [below, hempty]
    · have hrow : (row (components insights)).toDraft.Fits 2 := by
        apply fits_pair
        · simpa [row, components] using hempty
        · rw [row, components, List.length_map, List.length_append]
          split <;> split <;> simp
        · intro child hchild
          obtain ⟨card, hcard, rfl⟩ := List.mem_map.mp hchild
          exact hinsights card hcard
      simpa [below, hempty] using hrow
  exact ⟨Nat.succ_le_succ hbelow.1,
    List.forall_mem_cons.mpr ⟨(fits_statsGrid hp).succ, hbelow.2⟩⟩

theorem fits_dashboard {context : Context} (hp : Drawable context.placeholders) :
    (dashboard context).toDraft.Fits 4 := by
  obtain ⟨hfew, hbody⟩ := fits_dashboardBody hp
  rw [dashboard_eq]
  exact fits_shell (List.cons_ne_nil _ _) hfew hbody ..

-- No text has more fields than there are rules for them.
theorem length_fields_le (text : List Char) : (Instruction.fields text).length ≤ 10 := by
  have hmatching : ∀ (rules : List Instruction.FieldRule) (text : List Char),
      (Instruction.matchingRules text rules).length ≤ rules.length := by
    intro rules
    induction rules with
    | nil => exact fun _ => Nat.le_refl 0
    | cons rule rest ih =>
      intro text
      rw [Instruction.matchingRules]
      split
      · exact Nat.succ_le_succ (ih _)
      · exact Nat.le_succ_of_le (ih text)
  rw [Instruction.fields, List.length_map, List.length_mergeSort]
  exact hmatching Instruction.fieldRules text

-- A column with a single part.
theorem fits_column {draft : ComponentDraft} {depth : Nat} (hdraft : (component draft).Fits depth) :
    (column [.component draft]).toDraft.Fits (depth + 1) := by
  apply fits_pair
  · exact List.cons_ne_nil _ _
  · exact Nat.le_succ 1
  · exact List.forall_mem_singleton.mpr hdraft

theorem fits_form {context : Context} (hfields : context.fields.length ≤ 10) {labels : List String}
    (hlabels : labels.length ≤ 10) (title submit : String) :
    (form title labels submit context).toDraft.Fits 2 := by
  have hlength : (fieldsOr context labels).length ≤ 10 := by
    rw [fieldsOr]
    split
    · exact Nat.le_trans (List.length_filterMap_le _ _) hlabels
    · exact hfields
  let inputs := (fieldsOr context labels).map input
  have hparts : ∀ part ∈ inputs ++ [button submit "primary"], (component part).Fits 0 := by
    refine List.forall_mem_append.mpr ⟨?_, List.forall_mem_singleton.mpr (fits_part rfl rfl)⟩
    intro part hpart
    obtain ⟨field, -, rfl⟩ := List.mem_map.mp hpart
    exact fits_part rfl rfl
  let container := if context.features.has .modal then modal title else card title
  have hcontainer : (component container).Fits 0 := by
    simp only [container]
    split <;> exact fits_part rfl rfl
  apply fits_column
  apply fits_append hcontainer _ hparts
  rw [List.length_append, List.length_map, List.length_singleton]
  simp only [numberBound, UInt64.size]
  omega

theorem fits_kanban {context : Context} (hp : Drawable context.placeholders) :
    (kanban context).toDraft.Fits 2 :=
  fits_mapped rfl hp.kanbanLanes hp.fewKanbanLanes fun _ _ =>
    fits_append_singleton (fits_part rfl rfl) (fits_part rfl rfl)

-- A container with two parts in it.
theorem fits_append_pair {draft first second : ComponentDraft} (hdraft : (component draft).Fits 0)
    (hfirst : (component first).Fits 0) (hsecond : (component second).Fits 0) :
    (component (draft.append [first, second])).Fits 1 := by
  apply fits_append hdraft
  · simp [numberBound, UInt64.size]
  · exact List.forall_mem_cons.mpr ⟨hfirst, List.forall_mem_singleton.mpr hsecond⟩

theorem fits_pricing {context : Context} (hp : Drawable context.placeholders) :
    (pricing context).toDraft.Fits 2 :=
  fits_mapped rfl hp.pricingTiers hp.fewPricingTiers fun _ _ =>
    fits_append_pair (fits_part rfl rfl) (fits_part rfl rfl) (fits_part rfl rfl)

theorem fits_gallery {context : Context} (hp : Drawable context.placeholders) :
    (gallery context).toDraft.Fits 1 := by
  have hsize : context.placeholders.gallerySize.toNat ≠ 0 := fun hzero =>
    hp.gallery (UInt32.toNat_inj.mp hzero)
  have hword := context.placeholders.gallerySize.toNat_lt
  apply fits_mapped rfl
  · rwa [ne_eq, List.range'_eq_nil_iff]
  · rw [List.length_range']
    simp only [numberBound, UInt64.size]
    omega
  · exact fun _ _ => fits_part rfl rfl

-- A column with two parts.
theorem fits_column_pair {first second : ComponentDraft} {depth : Nat}
    (hfirst : (component first).Fits depth) (hsecond : (component second).Fits depth) :
    (column (components [first, second])).toDraft.Fits (depth + 1) := by
  apply fits_pair
  · exact List.cons_ne_nil _ _
  · exact Nat.le_refl 2
  · exact List.forall_mem_cons.mpr ⟨hfirst, List.forall_mem_singleton.mpr hsecond⟩

theorem fits_landing (context : Context) : (landing context).toDraft.Fits 2 :=
  fits_column_pair (fits_navbar _).succ
    (fits_append_singleton (fits_part rfl rfl) (fits_part rfl rfl))

theorem fits_modalOnly {context : Context} (hfields : context.fields.length ≤ 10) :
    (modalOnly context).toDraft.Fits 2 := by
  apply fits_column
  apply fits_append (fits_part rfl rfl)
  · simp only [List.length_append, List.length_cons, List.length_map, List.length_nil, numberBound,
      UInt64.size]
    omega
  · intro part hpart
    rcases List.mem_append.mp hpart with h | h
    · rcases List.mem_cons.mp h with rfl | h
      · exact fits_part rfl rfl
      · obtain ⟨field, -, rfl⟩ := List.mem_map.mp h
        exact fits_part rfl rfl
    · rw [List.mem_singleton.mp h]
      exact fits_part rfl rfl

theorem fits_profile (context : Context) : (profile context).toDraft.Fits 2 :=
  fits_column (fits_append_pair (fits_part rfl rfl) (fits_part rfl rfl) (fits_part rfl rfl))

-- Whichever template is drawn, the draft is at most four levels deep.
theorem fits_of_mem_catalogue {context : Context} (hp : Drawable context.placeholders)
    (hfields : context.fields.length ≤ 10) :
    ∀ rule ∈ catalogue, (rule.draw context).toDraft.Fits 4 := by
  have htwo : ∀ {draft : LayoutDraft}, draft.toDraft.Fits 2 → draft.toDraft.Fits 4 :=
    fun h => h.mono (by decide)
  have hone : ∀ {draft : LayoutDraft}, draft.toDraft.Fits 1 → draft.toDraft.Fits 4 :=
    fun h => h.mono (by decide)
  have hform : ∀ (title : String) {labels : List String} (submit : String), labels.length ≤ 10 →
      (form title labels submit context).toDraft.Fits 4 :=
    fun title _ submit hlabels => htwo (fits_form hfields hlabels title submit)
  simp only [catalogue, List.forall_mem_cons]
  exact ⟨
    fits_splitShell true true context,
    fits_dashboard hp,
    fits_plainShell true true context,
    fits_splitShell true false context,
    fits_plainShell true false context,
    fits_splitShell false true context,
    fits_plainShell false true context,
    htwo (fits_splitRow context),
    hform _ _ (by decide),
    hform _ _ (by decide),
    hform _ _ (by decide),
    hform _ _ (by decide),
    hform _ _ (by decide),
    htwo (fits_kanban hp),
    htwo (fits_pricing hp),
    hone (fits_gallery hp),
    hone (fits_statsGrid hp),
    htwo (fits_landing context),
    htwo (fits_column_pair (fits_chartCard _) (fits_tableCard _)),
    htwo (fits_column (fits_tableCard _)),
    htwo (fits_column (fits_chartCard _)),
    htwo (fits_modalOnly hfields),
    htwo (fits_profile context),
    htwo (fits_column (fits_textCard _)),
    List.forall_mem_nil _⟩

-- Some template always applies, since the last one needs nothing.
theorem exists_select?_eq (features : Instruction.Features) :
    ∃ rule ∈ catalogue, select? features = some rule := by
  have hlast : ⟨"default", [], standard⟩ ∈ catalogue := by simp [catalogue]
  have hsome : (select? features).isSome :=
    List.find?_isSome.mpr ⟨_, hlast, rfl⟩
  obtain ⟨rule, hrule⟩ := Option.isSome_iff_exists.mp hsome
  exact ⟨rule, List.mem_of_find?_eq_some hrule, hrule⟩

theorem exists_draft_eq {p : Placeholders} (hp : Drawable p) (text : List Char) :
    ∃ draft, Template.draft p (Instruction.freshIntent p text) = .ok draft ∧
      draft.toDraft.Fits 4 := by
  rw [Instruction.freshIntent]
  cases Instruction.minimality? text with
  | some source =>
    refine ⟨_, rfl, ?_⟩
    exact (fits_column (fits_part rfl rfl)).mono (by decide)
  | none =>
    let features := Instruction.Features.ofText text
    obtain ⟨rule, hmem, hselect⟩ := exists_select?_eq features
    refine ⟨rule.draw ⟨features, Instruction.fields text, p⟩, ?_, ?_⟩
    · simp only [Template.draft]
      rw [hselect]
    · exact fits_of_mem_catalogue hp (length_fields_le text) rule hmem

end Template

theorem LayoutDraft.regular_build {draft : LayoutDraft} (hfits : draft.toDraft.Fits 4) :
    draft.build.Regular ∧ draft.build.Filled := by
  let id := nodeId none (.layout draft.kind) 0
  have hid : WellFormedId id := wellFormedId_root _
  have hshort : id.length ≤ 12 := by
    have hall : ∀ kind : Kind, (nodeId none kind 0).length ≤ 12 :=
      Kind.forall_of_forall_mem (by decide)
    exact hall _
  have hbuilt := hfits.build hid (by omega)
  constructor
  · intro node hnode
    have hwalk : node ∈ (draft.toDraft.build id).walk := hnode
    obtain ⟨hnodeId, hclean, -, hlength⟩ := hbuilt node hwalk
    exact ⟨Draft.numbered_of_mem_walk_build hwalk, hnodeId, fun _ => by omega, hclean⟩
  · intro node hnode
    exact (hbuilt node hnode).2.2.1

-- What is drawn for an instruction is regular and has no empty layout.
theorem Template.exists_synthesize_eq {p : Placeholders} (hp : Drawable p) (text : List Char) :
    ∃ root, synthesize p (Instruction.freshIntent p text) = .ok root ∧ root.Regular ∧
      root.Filled := by
  obtain ⟨draft, hdraft, hfits⟩ := exists_draft_eq hp text
  have hspaced : (spaced p draft).toDraft.Fits 4 := by
    rw [Draft.fits_toDraft_iff] at hfits ⊢
    exact hfits
  refine ⟨(spaced p draft).build, ?_, LayoutDraft.regular_build hspaced⟩
  rw [synthesize, hdraft]
  rfl

end Wireframe
