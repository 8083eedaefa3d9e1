import Wireframe.Proofs.Effects
import Wireframe.Proofs.Nesting

namespace Wireframe

namespace Plan

variable {whitelist : Whitelist} {plan : Plan}

theorem validate_of_compile {config : Config} {previous : Option Plan} {text : String}
    (h : compile config previous text = .ok plan) :
    plan.validate config.whitelist = .ok plan := by
  obtain ⟨cleaned, -, h⟩ := bind_eq_ok_iff.mp h
  obtain ⟨made, -, hvalid⟩ := bind_eq_ok_iff.mp h
  obtain rfl := eq_of_validate_eq_ok hvalid
  exact hvalid

-- A valid plan that has been written is read as a plan that is valid too.
theorem ofJson_reread_of_validate (h : plan.validate whitelist = .ok plan) :
    ofJson plan.toJson.reread = .ok plan.reread := by
  rw [reread_toJson]
  exact ofJson_toJson_of_clean (clean_of_validate (validate_reread h))

theorem parse_pretty_of_writable (hwritable : plan.Writable)
    (h : plan.validate whitelist = .ok plan) : parse plan.toJson.pretty = .ok plan.reread := by
  rw [parse, hwritable.toJson.parse?_pretty]
  exact ofJson_reread_of_validate h

end Plan

namespace Command

variable {view : View}

theorem writable_of_loadPrevious {settings : Config} {previous : Option String}
    {prior : Option Plan} (h : loadPrevious view settings previous = .ok prior) :
    ∀ plan ∈ prior, plan.Writable := by
  cases previous with
  | none =>
    cases h
    exact nofun
  | some path =>
    cases hload : loadPlan view settings path with
    | error failure =>
      rw [loadPrevious, hload] at h
      cases h
    | ok plan =>
      rw [loadPrevious, hload] at h
      cases h
      rintro _ ⟨⟩
      obtain ⟨text, -, hplan⟩ := bind_eq_ok_iff.mp hload
      obtain ⟨read, hparse, hvalid⟩ := bind_eq_ok_iff.mp (mapError_eq_ok_iff.mp hplan)
      obtain rfl := Plan.eq_of_validate_eq_ok hvalid
      exact Plan.writable_of_parse hparse

-- What is said of a plan that is written.
def writtenLines (out : String) (plan : Plan) : List String :=
  ["Wrote " ++ out ++ " (" ++ plan.modification.name ++ ", " ++ toString plan.nodes.length ++
      " nodes)",
    "  Fingerprint: " ++ plan.fingerprint]

theorem exists_plan_of_settlePlan {text out : String} {previous config : Option String}
    {decision : Decision} (h : settlePlan view text previous config (some out) = .ok decision) :
    ∃ settings plan, loadConfig view config = .ok settings ∧ plan.Writable ∧
      plan.validate settings.whitelist = .ok plan ∧
      decision.report.output = writtenLines out plan ∧
      decision.effect = .write out plan.toJson.pretty := by
  obtain ⟨settings, hconfig, h⟩ := bind_eq_ok_iff.mp h
  obtain ⟨prior, hprior, h⟩ := bind_eq_ok_iff.mp h
  obtain ⟨plan, hcompile, h⟩ := bind_eq_ok_iff.mp h
  rw [mapError_eq_ok_iff] at hcompile
  cases h
  exact ⟨settings, plan, hconfig, writable_of_compile (writable_of_loadPrevious hprior) hcompile,
    Plan.validate_of_compile hcompile, rfl, rfl⟩

-- Where a written plan can be read with its configuration, it is accepted.
theorem settleValidate_of_written {settings : Config} {plan : Plan} {out : String}
    {config : Option String} (hconfig : loadConfig view config = .ok settings)
    (hread : view.read out = .ok plan.toJson.pretty) (hwritable : plan.Writable)
    (hvalid : plan.validate settings.whitelist = .ok plan) :
    settleValidate view out config = .ok {
      report := {
        output := ["OK: " ++ out ++ " (" ++ toString plan.nodes.length ++ " nodes)"] } } := by
  have hfile : readFile view out = .ok plan.toJson.pretty := mapError_eq_ok_iff.mpr hread
  have haccept : Plan.accept settings.whitelist plan.toJson.reread = .ok plan.reread := by
    rw [Plan.accept, Plan.ofJson_reread_of_validate hvalid, ok_bind, Plan.validate_reread hvalid]
  have hlength : plan.reread.nodes.length = plan.nodes.length := by
    rw [Plan.nodes_reread, List.length_map]
  rw [settleValidate, hconfig, ok_bind, hfile, ok_bind, hwritable.toJson.parse?_pretty]
  dsimp only
  rw [haccept, ← hlength]
  rfl

theorem loadPlan_of_written {whitelist : Whitelist} {plan : Plan} {out : String}
    (hread : view.read out = .ok plan.toJson.pretty) (hwritable : plan.Writable)
    (hvalid : plan.validate whitelist = .ok plan) : loadPlan view {} out = .ok plan.reread := by
  have hfile : readFile view out = .ok plan.toJson.pretty := mapError_eq_ok_iff.mpr hread
  rw [loadPlan, hfile, ok_bind, Plan.parse_pretty_of_writable hwritable hvalid]
  exact mapError_eq_ok_iff.mpr (Plan.validate_reread (Plan.validate_full hvalid))

end Command

namespace Workspace

open Command

variable {w after : Workspace}

theorem entry?_eq_file_iff {spot : Location} {content : String} :
    w.entry? spot = some (.file content) ↔ w.file? spot = some content := by
  unfold entry?
  cases w.file? spot with
  | some text => simp
  | none =>
    dsimp only
    split <;> simp

theorem read_eq_ok_iff {path content : String} :
    w.read path = .ok content ↔ ∃ spot, w.locate path = .ok spot ∧ w.file? spot = some content := by
  simp only [read, find?, bind_eq_ok_iff, ← entry?_eq_file_iff]
  constructor
  · rintro ⟨entry, ⟨spot, hlocate, hentry⟩, hread⟩
    refine ⟨spot, hlocate, ?_⟩
    split at hentry
    · next hfound =>
      cases hentry
      cases entry with
      | file text => rw [hfound, Except.ok.inj hread]
      | directory => cases hread
    · cases hentry
  · rintro ⟨spot, hlocate, hfile⟩
    exact ⟨.file content, ⟨spot, hlocate, by rw [hfile]⟩, rfl⟩

theorem read_of_write {path content : String} (h : w.write path content = .ok after) :
    after.read path = .ok content := by
  obtain ⟨spot, -, hlocate, hfiles⟩ := exists_spot_of_write h
  exact read_eq_ok_iff.mpr ⟨spot, hlocate, by rw [hfiles, if_pos rfl]⟩

-- What is read elsewhere is read as before.
theorem read_of_write_of_ne {path other content text : String}
    (h : w.write path content = .ok after) (hother : w.locate other ≠ w.locate path)
    (hread : w.read other = .ok text) : after.read other = .ok text := by
  obtain ⟨spot, hlocate, hspot, rfl⟩ := putFile_of_write h
  obtain ⟨place, hplace, hfile⟩ := read_eq_ok_iff.mp hread
  have hne : place ≠ spot := by
    rintro rfl
    exact hother (hplace.trans hlocate.symm)
  obtain ⟨all, hsteps, hwalk⟩ := locate_eq_ok_iff.mp hplace
  refine read_eq_ok_iff.mpr ⟨place,
    locate_eq_ok_iff.mpr ⟨all, hsteps, (walk_putFile hspot content).mpr hwalk⟩, ?_⟩
  rw [file?_putFile, if_neg hne, hfile]

theorem loadConfig_of_write {path content : String} {config : Option String} {settings : Config}
    (h : w.write path content = .ok after)
    (hother : ∀ other ∈ config, w.locate other ≠ w.locate path)
    (hconfig : loadConfig w.view config = .ok settings) :
    loadConfig after.view config = .ok settings := by
  cases config with
  | none => exact hconfig
  | some other =>
    obtain ⟨text, htext, hread⟩ := bind_eq_ok_iff.mp hconfig
    have hafter : readFile after.view other = .ok text :=
      mapError_eq_ok_iff.mpr
        (read_of_write_of_ne h (hother other rfl) (mapError_eq_ok_iff.mp htext))
    exact bind_eq_ok_iff.mpr ⟨text, hafter, hread⟩

theorem run_fst_of_success {command : Command} (h : (w.run command).1.failure = none) :
    (w.run command).1 = (command.settle w.view).report := by
  obtain ⟨-, hperform⟩ := failure_run_eq_none_iff.mp h
  rw [run]
  split
  · rfl
  · next heq => simp [heq] at hperform

-- A plan that `plan` writes is accepted under the configuration that it was made with, with the
-- number of nodes that `plan` has said, unless it was written over that configuration.
theorem run_accepts_written_plan {text out : String} {previous config : Option String}
    {report : Report} (hrun : w.run (.plan text previous config (some out)) = (report, after))
    (hsuccess : report.failure = none)
    (hother : ∀ path ∈ config, w.locate path ≠ w.locate out) :
    ∃ plan : Plan, report.output = writtenLines out plan ∧
      after.run (.validate out config) = ({
        output := ["OK: " ++ out ++ " (" ++ toString plan.nodes.length ++ " nodes)"] }, after) ∧
      (after.run (.diff out out)).1.failure = none := by
  have hreport : (w.run (.plan text previous config (some out))).1 = report := by rw [hrun]
  have hafter : (w.run (.plan text previous config (some out))).2 = after := by rw [hrun]
  rw [← hreport] at hsuccess
  obtain ⟨hsettles, hperform⟩ := failure_run_eq_none_iff.mp hsuccess
  cases hsettled : settlePlan w.view text previous config (some out) with
  | error failure =>
    rw [settle, hsettled] at hsettles
    cases hsettles
  | ok decision =>
    have hsettle : settle w.view (.plan text previous config (some out)) = decision := by
      rw [settle, hsettled]
      rfl
    obtain ⟨settings, plan, hconfig, hwritable, hvalid, hlines, heffect⟩ :=
      exists_plan_of_settlePlan hsettled
    rw [hsettle, heffect] at hperform
    have hwrite : w.write out plan.toJson.pretty = .ok after := by
      rw [← hafter, run_snd, hsettle, heffect]
      exact write_of_perform_write hperform
    have hread : after.view.read out = .ok plan.toJson.pretty := read_of_write hwrite
    refine ⟨plan, ?_, ?_, ?_⟩
    · rw [← hreport, run_fst_of_success hsuccess, hsettle, hlines]
    · rw [run, settle, settleValidate_of_written (loadConfig_of_write hwrite hother hconfig)
        hread hwritable hvalid]
      rfl
    · rw [run, settle, settleDiff, loadPlan_of_written hread hwritable hvalid]
      rfl

-- A column with one card, whose ratio is written in another way than it was typed.
def site : Workspace where
  files := [
    (["uiplan.yaml"], "whitelist: \x7bColumn: layout, Card: component, Chart: component\x7d"),
    (["old.json"], "\x7b\"modificationType\": \"create\", \"root\": \x7b" ++
      "\"id\": \"column-0\", \"type\": \"Column\", \"children\": [\x7b" ++
      "\"id\": \"column-0.card-0\", \"type\": \"Card\", \"props\": \x7b\"ratio\": 1e23\x7d" ++
      "\x7d]\x7d\x7d")]

def addChart : Command :=
  .plan "add a chart" (some "old.json") (some "uiplan.yaml") (some "new.json")

theorem run_accepts_plan_with_chart : (site.run addChart).1.failure = none ∧ ∃ plan : Plan,
    (site.run addChart).1.output = writtenLines "new.json" plan ∧
    (site.run addChart).2.run (.validate "new.json" (some "uiplan.yaml")) = ({
      output := ["OK: " ++ "new.json" ++ " (" ++ toString plan.nodes.length ++ " nodes)"] },
      (site.run addChart).2) ∧
    ((site.run addChart).2.run (.diff "new.json" "new.json")).1.failure = none := by
  have hsuccess : (site.run addChart).1.failure = none := by decide +kernel
  have hother : ∀ path ∈ some "uiplan.yaml", site.locate path ≠ site.locate "new.json" := by
    rintro _ ⟨⟩
    decide
  exact ⟨hsuccess, run_accepts_written_plan Prod.mk.eta.symm hsuccess hother⟩

end Workspace

end Wireframe
