import Wireframe.Compiler
import Wireframe.Config.Problem
import Wireframe.Proofs.Drawing
import Wireframe.Proofs.Extraction
import Wireframe.Proofs.RegularEdit

namespace Wireframe

open Instruction

structure Call where
  config : Config
  previous : Option Plan
  text : String

namespace Call

def outcome (call : Call) : Except Fault Plan := compile call.config call.previous call.text

-- The instruction as it is understood.
def approved (call : Call) : Except Fault (List Char) :=
  approve call.config.limits call.text.toList

def classification (call : Call) (cleaned : List Char) : Classification :=
  classify call.config call.previous.isSome cleaned

-- The ways in which a call of a run can fail.
inductive MayFail (call : Call) : Fault → Prop where
  | injection {reason : String} :
    call.approved = .error (.injection reason) → MayFail call (.injection reason)
  | input {problem : InputProblem} :
    call.approved = .error (.input problem) → MayFail call (.input problem)
  | unknownKind {cleaned : List Char} {plan : Plan} {node : Node} :
    call.approved = .ok cleaned →
      realize call.config call.previous (call.classification cleaned) = .ok plan →
      node ∈ plan.nodes → call.config.whitelist.allows node.kind = false →
      MayFail call (.unknownKind node.kind.name node.id)
  | emptyLayout {cleaned : List Char} {request : Request} {kind id : String} :
    call.approved = .ok cleaned → call.classification cleaned = ⟨.edit, .edit request⟩ →
      request.removals ≠ [] → MayFail call (.structural .emptyLayout kind id)

end Call

-- What is listed in a configuration can be counted in words.
structure Config.InRange (config : Config) : Prop where
  statCards : config.placeholders.statCards.length < numberBound
  pricingTiers : config.placeholders.pricingTiers.length < numberBound
  kanbanLanes : config.placeholders.kanbanLanes.length < numberBound
  modalInputs : config.limits.maxModalInputs < numberBound

-- A call that can come after others: its configuration has no problems, and the plan that it
-- starts from, if any, has been returned by one of the others.
structure Call.Follows (call : Call) (earlier : List Call) : Prop where
  config : call.config.problems = []
  inRange : call.config.InRange
  returned : ∀ prior ∈ call.previous, ∃ other ∈ earlier, other.outcome = .ok prior
  few : ∀ prior ∈ call.previous, ∀ node ∈ prior.nodes, node.children.length < numberBound

-- The calls of a run, the last one first.
inductive IsRun : List Call → Prop where
  | nil : IsRun []
  | cons {call : Call} {earlier : List Call} :
    call.Follows earlier → IsRun earlier → IsRun (call :: earlier)

theorem ConfigProblem.found_eq_nil_iff {condition : Bool} {problem : ConfigProblem} :
    found condition problem = [] ↔ condition = false := by
  cases condition <;> simp [found]

theorem Template.Drawable.of_problems {config : Config} (hproblems : config.problems = [])
    (hrange : config.InRange) : Drawable config.placeholders := by
  have hplaceholders : config.placeholders.problems = [] := by
    simp only [Config.problems, List.append_eq_nil_iff] at hproblems
    exact hproblems.1.2
  simp only [Placeholders.problems, List.append_eq_nil_iff, ConfigProblem.found_eq_nil_iff,
    Bool.or_eq_false_iff, List.isEmpty_eq_false_iff, beq_eq_false_iff_ne] at hplaceholders
  obtain ⟨⟨⟨-, hlanes⟩, hcards, htiers⟩, hsize, -⟩ := hplaceholders
  exact ⟨hcards, htiers, hlanes, hsize, Nat.le_of_lt hrange.statCards,
    Nat.le_of_lt hrange.pricingTiers, Nat.le_of_lt hrange.kanbanLanes⟩

theorem fault_of_checkSafe {text : List Char} {fault : Fault} (h : checkSafe text = .error fault) :
    ∃ reason, fault = .injection reason := by
  rw [checkSafe] at h
  split at h
  · cases h
    exact ⟨_, rfl⟩
  · cases h

theorem fault_of_clean {limits : Limits} {text : List Char} {fault : Fault}
    (h : clean limits text = .error fault) : ∃ problem, fault = .input problem := by
  simp only [clean] at h
  split at h
  · cases h
    exact ⟨_, rfl⟩
  · split at h
    · cases h
      exact ⟨_, rfl⟩
    · cases h

-- An instruction is refused for what it holds or for how it is given.
theorem fault_of_approve {limits : Limits} {text : List Char} {fault : Fault}
    (h : approve limits text = .error fault) :
    (∃ reason, fault = .injection reason) ∨ ∃ problem, fault = .input problem := by
  rcases bind_eq_error h with hfirst | ⟨-, -, h⟩
  · exact .inl (fault_of_checkSafe hfirst)
  · rcases bind_eq_error h with hclean | ⟨cleaned, -, h⟩
    · exact .inr (fault_of_clean hclean)
    · rcases bind_eq_error h with hsecond | ⟨-, -, h⟩
      · exact .inl (fault_of_checkSafe hsecond)
      · cases h

-- Only with a plan before is an instruction taken for a change.
theorem classify_cases (config : Config) (hasPrevious : Bool) (text : List Char) :
    (hasPrevious = true ∧
      classify config hasPrevious text = ⟨.edit, .edit (request config.limits text)⟩) ∨
    ∃ modification ≠ .edit,
      classify config hasPrevious text = ⟨modification, freshIntent config.placeholders text⟩ := by
  rw [classify]
  split
  · exact .inr ⟨.regenerate, by decide, rfl⟩
  · split
    · next hchange =>
      rw [Bool.and_eq_true] at hchange
      exact .inl ⟨hchange.1, rfl⟩
    · exact .inr ⟨.create, by decide, rfl⟩

theorem realize_freshIntent {config : Config} (previous : Option Plan) {modification : Modification}
    {text : List Char} {root : Layout}
    (hroot : Template.synthesize config.placeholders (freshIntent config.placeholders text) =
      .ok root) :
    realize config previous ⟨modification, freshIntent config.placeholders text⟩ =
      .ok ⟨modification, root⟩ := by
  have hne : ∀ request, freshIntent config.placeholders text ≠ .edit request := by
    intro request hintent
    rw [freshIntent] at hintent
    split at hintent <;> cases hintent
  rw [realize]
  · rw [hroot, ok_bind]
    rfl
  · intro request prior hintent
    exact absurd hintent (hne request)

-- Additions are parts with parts in them at most.
theorem fits_additionDraft (p : Placeholders) {limits : Limits} {addition : Addition}
    (hlimited : addition.Limited limits) (hlimits : limits.maxModalInputs < numberBound) :
    (Draft.component (additionDraft p addition)).Fits 1 := by
  cases addition with
  | modal title inputs =>
    apply Draft.fits_append (Draft.fits_part rfl rfl)
    · rw [List.length_map]
      exact Nat.le_trans hlimited (Nat.le_of_lt hlimits)
    · intro part hpart
      obtain ⟨field, -, rfl⟩ := List.mem_map.mp hpart
      exact Draft.fits_part rfl rfl
  | chart => exact Template.fits_chartCard p
  | table => exact Template.fits_tableCard p

namespace Call

-- A call under which nothing but its text and the kinds that are allowed can make a difference.
structure Ready (call : Call) : Prop where
  config : call.config.problems = []
  inRange : call.config.InRange
  regular : ∀ prior ∈ call.previous, prior.root.Regular
  filled : ∀ prior ∈ call.previous, prior.root.Filled
  few : ∀ prior ∈ call.previous, ∀ node ∈ prior.nodes, node.children.length < numberBound

variable {call : Call} {cleaned : List Char}

theorem outcome_of_realize {plan : Plan} (happroved : call.approved = .ok cleaned)
    (hplan : realize call.config call.previous (call.classification cleaned) = .ok plan) :
    call.outcome = plan.validate call.config.whitelist := by
  rw [outcome, compile, ← approved, happroved, ok_bind, ← classification, hplan, ok_bind]

-- A changed plan is regular, and if nothing is removed no layout is empty.
theorem Ready.realize_edit (hready : call.Ready) {request : Request}
    (hedit : call.classification cleaned = ⟨.edit, .edit request⟩) :
    ∃ plan, realize call.config call.previous (call.classification cleaned) = .ok plan ∧
      plan.root.Regular ∧ (request.removals = [] → plan.root.Filled) := by
  rcases classify_cases call.config call.previous.isSome cleaned with
    ⟨hsome, hclass⟩ | ⟨modification, hne, hfresh⟩
  · obtain ⟨prior, hprior⟩ := Option.isSome_iff_exists.mp hsome
    obtain rfl : request = Instruction.request call.config.limits cleaned := by
      rw [classification, hclass] at hedit
      cases hedit
      rfl
    have hproper := proper_request call.config.limits cleaned
    refine ⟨prior.edit call.config.placeholders (Instruction.request call.config.limits cleaned),
      ?_, ?_, ?_⟩
    · rw [hedit, hprior]
      rfl
    · apply regular_edit (hready.regular prior hprior)
      · exact fun node hnode => Nat.le_of_lt (hready.few prior hprior node hnode)
      · have hlength := hproper.length_additions_le
        simp only [numberBound, UInt64.size]
        omega
      · exact fun addition haddition =>
          fits_additionDraft _ (hproper.limited addition haddition) hready.inRange.modalInputs
    · exact filled_edit _ (hready.filled prior hprior)
  · rw [classification, hfresh] at hedit
    exact absurd (Classification.mk.inj hedit).1 hne

-- A plan that is not changed is drawn, and what is drawn is regular and has no empty layout.
theorem Ready.realize_fresh (hready : call.Ready)
    (hfresh : (call.classification cleaned).modification ≠ .edit) :
    ∃ root,
      Template.synthesize call.config.placeholders (call.classification cleaned).intent =
        .ok root ∧
      realize call.config call.previous (call.classification cleaned) =
        .ok ⟨(call.classification cleaned).modification, root⟩ ∧
      root.Regular ∧ root.Filled := by
  rcases classify_cases call.config call.previous.isSome cleaned with
    ⟨-, hclass⟩ | ⟨modification, -, hclass⟩
  · rw [classification, hclass] at hfresh
    exact absurd rfl hfresh
  · have hdrawable := Template.Drawable.of_problems hready.config hready.inRange
    obtain ⟨root, hroot, hregular, hfilled⟩ := Template.exists_synthesize_eq hdrawable cleaned
    rw [classification, hclass]
    exact ⟨root, hroot, realize_freshIntent call.previous hroot, hregular, hfilled⟩

-- A call that draws can fail only for a kind in what it draws.
theorem Ready.outcome_fresh (hready : call.Ready) (happroved : call.approved = .ok cleaned)
    (hfresh : (call.classification cleaned).modification ≠ .edit) :
    ∃ root,
      Template.synthesize call.config.placeholders (call.classification cleaned).intent =
        .ok root ∧
      (call.outcome = .ok ⟨(call.classification cleaned).modification, root⟩ ∨
        ∃ node ∈ root.toNode.walk, call.config.whitelist.allows node.kind = false ∧
          call.outcome = .error (.unknownKind node.kind.name node.id)) := by
  obtain ⟨root, hroot, hplan, hregular, hfilled⟩ := hready.realize_fresh hfresh
  refine ⟨root, hroot, ?_⟩
  let plan : Plan := ⟨(call.classification cleaned).modification, root⟩
  have hchecked : plan.root.Regular := hregular
  rw [outcome_of_realize happroved hplan]
  rcases Plan.validate_of_regular hchecked with hok | hkind | ⟨node, hnode, hempty, -⟩
  · exact .inl hok
  · exact .inr hkind
  · exact absurd (hfilled node hnode) hempty

-- What is checked is regular in either case. If a layout is empty, something has been removed.
theorem Ready.realize (hready : call.Ready) (cleaned : List Char) :
    ∃ plan, realize call.config call.previous (call.classification cleaned) = .ok plan ∧
      plan.root.Regular ∧
      (plan.root.Filled ∨ ∃ request : Request,
        call.classification cleaned = ⟨.edit, .edit request⟩ ∧ request.removals ≠ []) := by
  rcases classify_cases call.config call.previous.isSome cleaned with
    ⟨-, hclass⟩ | ⟨modification, hne, hclass⟩
  · let request := Instruction.request call.config.limits cleaned
    have hedit : call.classification cleaned = ⟨.edit, .edit request⟩ := hclass
    obtain ⟨plan, hplan, hregular, hfilled⟩ := hready.realize_edit hedit
    refine ⟨plan, hplan, hregular, ?_⟩
    by_cases hremovals : request.removals = []
    · exact .inl (hfilled hremovals)
    · exact .inr ⟨request, hedit, hremovals⟩
  · have hfresh : (call.classification cleaned).modification ≠ .edit := by
      rwa [classification, hclass]
    obtain ⟨root, -, hplan, hregular, hfilled⟩ := hready.realize_fresh hfresh
    exact ⟨_, hplan, hregular, .inl hfilled⟩

-- The step of a run: a regular plan comes out, or the call fails in one of the ways.
theorem Ready.outcome_cases (hready : call.Ready) :
    (∃ plan, call.outcome = .ok plan ∧ plan.root.Regular ∧ plan.root.Filled) ∨
      ∃ fault, call.outcome = .error fault ∧ call.MayFail fault := by
  cases happroved : call.approved with
  | error fault =>
    have houtcome : call.outcome = .error fault := by
      rw [outcome, compile, ← approved, happroved]
      rfl
    rcases fault_of_approve happroved with ⟨reason, rfl⟩ | ⟨problem, rfl⟩
    · exact .inr ⟨_, houtcome, .injection happroved⟩
    · exact .inr ⟨_, houtcome, .input happroved⟩
  | ok cleaned =>
    obtain ⟨plan, hplan, hregular, hfilled⟩ := hready.realize cleaned
    rw [outcome_of_realize happroved hplan]
    rcases Plan.validate_of_regular hregular with
      hok | ⟨node, hnode, hkind, hfault⟩ | ⟨node, hnode, hempty, hfault⟩
    · exact .inl ⟨plan, hok, hregular, Plan.filled_of_validate hok⟩
    · exact .inr ⟨_, hfault, .unknownKind happroved hplan hnode hkind⟩
    · rcases hfilled with hfilled | ⟨request, hedit, hremovals⟩
      · exact absurd (hfilled node hnode) hempty
      · exact .inr ⟨_, hfault, .emptyLayout happroved hedit hremovals⟩

end Call

-- Every call of a run is ready: the plan that it starts from is one that a step has made.
theorem IsRun.ready {calls : List Call} (hrun : IsRun calls) : ∀ call ∈ calls, call.Ready := by
  induction hrun with
  | nil => exact nofun
  | @cons call earlier hfollows _ ih =>
    have hsound : ∀ prior ∈ call.previous, prior.root.Regular ∧ prior.root.Filled := by
      intro prior hprior
      obtain ⟨other, hother, hreturned⟩ := hfollows.returned prior hprior
      rcases (ih other hother).outcome_cases with ⟨plan, hplan, hplanSound⟩ | ⟨fault, hfault, -⟩
      · obtain rfl : plan = prior := Except.ok.inj (hplan.symm.trans hreturned)
        exact hplanSound
      · rw [hfault] at hreturned
        cases hreturned
    refine List.forall_mem_cons.mpr ⟨⟨hfollows.config, hfollows.inRange, ?_, ?_, hfollows.few⟩, ih⟩
    · exact fun prior hprior => (hsound prior hprior).1
    · exact fun prior hprior => (hsound prior hprior).2

-- Every call of a run returns a plan or fails in one of the ways. A call whose instruction may be
-- followed and is not taken for a change fails only for a kind in the tree that is drawn.
theorem IsRun.ok_or_mayFail {calls : List Call} (hrun : IsRun calls) {call : Call}
    (hcall : call ∈ calls) :
    ((∃ plan, call.outcome = .ok plan) ∨
      ∃ fault, call.outcome = .error fault ∧ call.MayFail fault) ∧
    ∀ cleaned, call.approved = .ok cleaned →
      (call.classification cleaned).modification ≠ .edit →
      ∃ root,
        Template.synthesize call.config.placeholders (call.classification cleaned).intent =
          .ok root ∧
        (call.outcome = .ok ⟨(call.classification cleaned).modification, root⟩ ∨
          ∃ node ∈ root.toNode.walk, call.config.whitelist.allows node.kind = false ∧
            call.outcome = .error (.unknownKind node.kind.name node.id)) := by
  have hready := hrun.ready call hcall
  refine ⟨?_, fun cleaned happroved hfresh => hready.outcome_fresh happroved hfresh⟩
  rcases hready.outcome_cases with ⟨plan, hplan, -⟩ | hfails
  · exact .inl ⟨plan, hplan⟩
  · exact .inr hfails

-- A card is drawn, and then taken off its column again.
def drawCard : Call := ⟨{}, none, "minimal"⟩

def drawnCard : Plan where
  modification := .create
  root := {
    id := "column-0"
    kind := .column
    spacing := { gap := some 16, padding := some 24 }
    children := [.component ⟨"column-0.card-0", .card, [("title", .string "Untitled")], []⟩] }

def removeCard : Call := ⟨{}, some drawnCard, "remove the card"⟩

theorem removeCard_mayFail : IsRun [removeCard, drawCard] ∧ removeCard ∈ [removeCard, drawCard] ∧
    removeCard.MayFail (.structural .emptyLayout "Column" "column-0") := by
  have hrange : ({} : Config).InRange := ⟨by decide, by decide, by decide, by decide⟩
  have hdraw : drawCard.Follows [] := ⟨by decide, hrange, nofun, nofun⟩
  have hdrawn : drawCard.outcome = .ok drawnCard := by rfl
  have hremove : removeCard.Follows [drawCard] := by
    refine ⟨by decide, hrange, ?_, ?_⟩
    · rintro _ ⟨⟩
      exact ⟨drawCard, List.mem_cons_self, hdrawn⟩
    · rintro _ ⟨⟩
      decide
  have hrun : IsRun [removeCard, drawCard] := .cons hremove (.cons hdraw .nil)
  have houtcome : removeCard.outcome = .error (.structural .emptyLayout "Column" "column-0") := by
    rfl
  refine ⟨hrun, List.mem_cons_self, ?_⟩
  rcases (hrun.ok_or_mayFail List.mem_cons_self).1 with ⟨plan, hplan⟩ | ⟨fault, hfault, hfails⟩
  · rw [houtcome] at hplan
    cases hplan
  · rw [houtcome] at hfault
    cases hfault
    exact hfails

end Wireframe
