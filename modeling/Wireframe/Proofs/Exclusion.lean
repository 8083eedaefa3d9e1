import Wireframe.Proofs.Drawing
import Wireframe.Proofs.Mention
import Wireframe.Proofs.Pieces

namespace Wireframe

open Instruction (Concept)

namespace ComponentKind

-- The part of a page that a component is, if an instruction can ask for it and exclude it.
def part? : ComponentKind → Option Concept
  | sidebar => some .sidebar
  | navbar => some .navbar
  | chart => some .chart
  | table => some .table
  | modal => some .modal
  | _ => none

theorem eq_navbar_of_part {kind : ComponentKind} (h : kind.part? = some .navbar) :
    kind = .navbar := by
  cases kind with
  | navbar => rfl
  | _ => cases h

theorem ne_twoColumns_of_part {kind : ComponentKind} {concept : Concept}
    (h : kind.part? = some concept) : concept ≠ .twoColumns := by
  rintro rfl
  cases kind <;> cases h

end ComponentKind

namespace Draft

-- Every component that is built from pieces has the kind of a piece.
theorem MadeOf.exists_kind_eq {piece : ComponentDraft → Prop} {depth : Nat} {id : String}
    {draft : Draft} (hdraft : draft.MadeOf piece depth) {node : Node}
    (hnode : node ∈ (draft.build id).walk) {kind : ComponentKind}
    (hkind : node.kind = .component kind) : ∃ base, piece base ∧ base.kind = kind := by
  have hbelow {id : String} {draft : Draft} (hnode : node ∈ (draft.build id).walk) :
      node = draft.build id ∨ ∃ child ∈ draft.children, ∃ id, node ∈ (child.build id).walk := by
    refine (Node.mem_walk.mp hnode).imp_right ?_
    rintro ⟨built, hbuilt, hin⟩
    rw [children_build] at hbuilt
    obtain ⟨place, hplace, rfl⟩ := List.mem_map.mp hbuilt
    exact ⟨place.1, List.fst_mem_of_mem_zipIdx hplace, _, hin⟩
  induction hdraft generalizing id with
  | layout _ ih =>
    rcases hbelow hnode with rfl | ⟨child, hchild, id, hin⟩
    · cases hkind
    · exact ih child hchild hin
  | component hpiece hsame _ _ ih =>
    rcases hbelow hnode with rfl | ⟨child, hchild, id, hin⟩
    · rw [kind_build] at hkind
      exact ⟨_, hpiece, hsame.symm.trans (Kind.component.inj hkind)⟩
    · obtain ⟨part, hpart, rfl⟩ := List.mem_map.mp hchild
      exact ih part hpart hin

end Draft

namespace Template

open Instruction Draft

-- A component that is some part of a page is placed only if that part may be.
theorem Piece.may_of_part {p : Placeholders} {may : Concept → Prop} {base : ComponentDraft}
    (hbase : Piece p may base) {concept : Concept} (hpart : base.kind.part? = some concept) :
    may concept := by
  cases hbase with
  | card | subtitledCard | text | button | input => cases hpart
  | modal _ hmay | sidebar hmay | navbar hmay | chart _ hmay | table hmay =>
    cases hpart
    exact hmay

-- The template of a landing page is drawn.
def DrawsLanding (text : List Char) : Prop :=
  minimality? text = none ∧ (select? (Features.ofText text)).map Rule.name = some "landing"

-- A part of a page may be placed if it is not excluded; a landing page has a navbar in any case.
def May (text : List Char) (concept : Concept) : Prop :=
  concept = .twoColumns ∨ excludes text concept = false ∨ concept = .navbar ∧ DrawsLanding text

-- What is drawn for an instruction is made of pieces that may be placed.
theorem exists_draft_madeOf (p : Placeholders) (text : List Char) :
    ∃ draft, Template.draft p (freshIntent p text) = .ok draft ∧
      draft.toDraft.MadeOf (Piece p (May text)) 5 := by
  rw [freshIntent]
  cases hminimality : minimality? text with
  | some source => exact ⟨_, rfl, (madeOf_column (Piece.card _).madeOf).mono (by decide)⟩
  | none =>
    obtain ⟨rule, hmem, hselect⟩ := exists_select?_eq (Features.ofText text)
    let context : Context := ⟨Features.ofText text, fields text, p⟩
    have hasked : Asked context (May text) := fun concept hhas =>
      .inr (.inl (excludes_eq_false_of_requires (Features.has_ofText text concept ▸ hhas)))
    have hkept (concept : Concept) (hlacks : (Features.ofText text).lacks concept = false) :
        May text concept := by
      rcases eq_or_ne concept .twoColumns with htwo | htwo
      · exact .inl htwo
      · exact .inr (.inl (Features.lacks_ofText_of_ne htwo ▸ hlacks))
    have happlies : rule.applies context.features = true := by
      simpa using List.find?_some hselect
    refine ⟨rule.draw context, ?_, hasked.madeOf_of_mem_catalogue hkept rule hmem happlies ?_⟩
    · simp only [Template.draft]
      rw [hselect]
    · exact fun hname => .inr (.inr ⟨rfl, hminimality, by rw [hselect, Option.map_some, hname]⟩)

theorem madeOf_spaced {piece : ComponentDraft → Prop} {depth : Nat} {draft : LayoutDraft}
    (hdraft : draft.toDraft.MadeOf piece depth) (p : Placeholders) :
    (spaced p draft).toDraft.MadeOf piece depth := by
  cases hdraft with
  | layout hchildren => exact .layout hchildren

-- A landing page has a navbar.
theorem exists_navbar_of_drawsLanding {text : List Char} (hlanding : DrawsLanding text)
    {p : Placeholders} {root : Layout} (hroot : synthesize p (freshIntent p text) = .ok root) :
    ∃ node ∈ root.toNode.walk, node.kind = .component .navbar := by
  obtain ⟨hminimality, hname⟩ := hlanding
  obtain ⟨rule, hmem, hselect⟩ := exists_select?_eq (Features.ofText text)
  obtain rfl : rule = ⟨"landing", [.landing], landing⟩ := by
    have hall : ∀ rule ∈ catalogue, rule.name = "landing" →
        rule = ⟨"landing", [.landing], landing⟩ := by
      simp [catalogue]
    rw [hselect, Option.map_some, Option.some.injEq] at hname
    exact hall rule hmem hname
  simp only [freshIntent, hminimality, synthesize, Template.draft, hselect] at hroot
  cases hroot
  exact ⟨_, Node.mem_walk.mpr (.inr ⟨_, List.mem_cons_self, Node.mem_walk_self _⟩), rfl⟩

-- Of the parts that an instruction excludes, exactly the navbar of a landing page is there.
theorem exists_excluded_part_iff (config : Config) (text : List Char) :
    ∃ root, synthesize config.placeholders (classify config false text).intent = .ok root ∧
      ∀ kind concept, kind.part? = some concept → excludes text concept = true →
        ((∃ node ∈ root.toNode.walk, node.kind = .component kind) ↔
          concept = .navbar ∧ DrawsLanding text) := by
  have hintent : (classify config false text).intent = freshIntent config.placeholders text := rfl
  obtain ⟨draft, hdraft, hmade⟩ := exists_draft_madeOf config.placeholders text
  have hroot : synthesize config.placeholders (freshIntent config.placeholders text) =
      .ok (spaced config.placeholders draft).build := by
    rw [synthesize, hdraft]
    rfl
  refine ⟨_, hintent ▸ hroot, fun kind concept hpart hexcludes => ⟨?_, ?_⟩⟩
  · rintro ⟨node, hnode, hkind⟩
    obtain ⟨base, hbase, rfl⟩ := (madeOf_spaced hmade _).exists_kind_eq hnode hkind
    rcases hbase.may_of_part hpart with htwo | hkept | hlanding
    · exact absurd htwo (ComponentKind.ne_twoColumns_of_part hpart)
    · simp [hexcludes] at hkept
    · exact hlanding
  · rintro ⟨rfl, hlanding⟩
    obtain rfl := ComponentKind.eq_navbar_of_part hpart
    exact exists_navbar_of_drawsLanding hlanding hroot

def bareDashboard : List Char := "a dashboard without a sidebar".toList

-- A dashboard that is to have no sidebar has none.
theorem bareDashboard_has_no_sidebar :
    excludes bareDashboard .sidebar = true ∧ ∃ root,
      synthesize ({} : Config).placeholders (classify {} false bareDashboard).intent = .ok root ∧
      ¬ ∃ node ∈ root.toNode.walk, node.kind = .component .sidebar := by
  have hexcludes : excludes bareDashboard .sidebar = true := by decide
  obtain ⟨root, hroot, hparts⟩ := exists_excluded_part_iff {} bareDashboard
  refine ⟨hexcludes, root, hroot, fun hsidebar => ?_⟩
  obtain ⟨hnavbar, -⟩ := (hparts .sidebar .sidebar rfl hexcludes).mp hsidebar
  cases hnavbar

-- A landing page that is to have no navbar has one.
def plainLanding : List Char := "a landing page without a navbar".toList

theorem plainLanding_has_navbar :
    excludes plainLanding .navbar = true ∧ ∃ root,
      synthesize ({} : Config).placeholders (classify {} false plainLanding).intent = .ok root ∧
      ∃ node ∈ root.toNode.walk, node.kind = .component .navbar := by
  refine ⟨by decide, _, rfl, ?_⟩
  decide

end Template

end Wireframe
