import Wireframe.Proofs.Approval
import Wireframe.Proofs.Workspace

namespace Wireframe

namespace Command

-- The path of the one file that a command may write.
def target? : Command → Option String
  | init directory => some (configPath directory)
  | plan _ _ _ out => out
  | validate .. | diff .. | classify .. | check _ => none

-- What a command writes there: the standard configuration, or the plan that is made of the text.
inductive Writes (view : View) : Command → String → Prop
  | init (directory : String) : Writes view (.init directory) standardConfigText
  | plan {text : String} {previous config out : Option String} {settings : Config}
      {prior : Option Plan} {plan : Plan} :
    loadConfig view config = .ok settings → loadPrevious view settings previous = .ok prior →
      compile settings prior text = .ok plan →
      Writes view (.plan text previous config out) plan.toJson.pretty

-- What a command is about to do once it has settled what to say.
inductive Settled (view : View) (command : Command) : Prop
  | fails : (command.settle view).effect = .nothing →
      (command.settle view).report.failure ≠ none → Settled view command
  | looks : (command.settle view).effect = .nothing → command.target? = none → Settled view command
  | writes {path text : String} : command.target? = some path → command.Writes view text →
      (command.settle view).report.failure = none →
      (command.settle view).effect = .write path text → (∀ directory, command ≠ .init directory) →
      Settled view command
  | establishes {directory path : String} : command = .init directory →
      path = configPath directory → view.has path = false →
      (command.settle view).report.failure = none →
      (command.settle view).effect = .establish directory path standardConfigText →
      Settled view command

theorem settled_init (view : View) (directory : String) : Settled view (.init directory) := by
  cases hhas : view.has (configPath directory) with
  | true =>
    apply Settled.fails <;> rw [settle, settleInit, if_pos hhas]
    · rfl
    · rintro ⟨⟩
  | false =>
    apply Settled.establishes rfl rfl hhas <;>
      rw [settle, settleInit, if_neg (by simp [hhas])] <;> rfl

theorem settled_plan (view : View) (text : String) (previous config out : Option String) :
    Settled view (.plan text previous config out) := by
  cases hsettled : settlePlan view text previous config out with
  | error failure =>
    apply Settled.fails <;> rw [settle, hsettled]
    · rfl
    · rintro ⟨⟩
  | ok decision =>
    have hsettle : settle view (.plan text previous config out) = decision := by
      rw [settle, hsettled]
      rfl
    obtain ⟨settings, hconfig, h⟩ := bind_eq_ok_iff.mp hsettled
    obtain ⟨prior, hprior, h⟩ := bind_eq_ok_iff.mp h
    obtain ⟨plan, hcompile, h⟩ := bind_eq_ok_iff.mp h
    cases out with
    | none =>
      apply Settled.looks _ rfl
      rw [hsettle, ← Except.ok.inj h]
    | some path =>
      have hwrites :
          Writes view (.plan text previous config (some path)) plan.toJson.pretty :=
        .plan hconfig hprior (mapError_eq_ok_iff.mp hcompile)
      apply Settled.writes rfl hwrites
      · rw [hsettle, ← Except.ok.inj h]
      · rw [hsettle, ← Except.ok.inj h]
      · rintro _ ⟨⟩

-- The other commands only look at files.
theorem effect_of_settleValidate {view : View} {file : String} {config : Option String}
    {decision : Decision} (h : settleValidate view file config = .ok decision) :
    decision.effect = .nothing := by
  obtain ⟨settings, -, h⟩ := bind_eq_ok_iff.mp h
  obtain ⟨text, -, h⟩ := bind_eq_ok_iff.mp h
  split at h
  · cases h
  · split at h <;> rw [← Except.ok.inj h]

theorem effect_of_settleDiff {view : View} {previous current : String} {decision : Decision}
    (h : settleDiff view previous current = .ok decision) : decision.effect = .nothing := by
  obtain ⟨before, -, h⟩ := bind_eq_ok_iff.mp h
  obtain ⟨after, -, h⟩ := bind_eq_ok_iff.mp h
  rw [← Except.ok.inj h]

theorem settled (view : View) (command : Command) : Settled view command := by
  cases command with
  | init directory => exact settled_init view directory
  | plan text previous config out => exact settled_plan view text previous config out
  | validate file config =>
    refine .looks ?_ rfl
    rw [settle]
    exact Decision.effect_ofExcept fun _ => effect_of_settleValidate
  | diff previous current =>
    refine .looks ?_ rfl
    rw [settle]
    exact Decision.effect_ofExcept fun _ => effect_of_settleDiff
  | classify text previous config =>
    refine .looks ?_ rfl
    rw [settle]
    exact Decision.effect_ofExcept fun _ => effect_of_settleClassify
  | check text =>
    refine .looks ?_ rfl
    rw [settle]
    exact Decision.effect_ofExcept fun _ => effect_of_settleCheck

end Command

namespace Workspace

open Command

variable {w : Workspace}

theorem run_snd (w : Workspace) (command : Command) :
    (w.run command).2 = (w.perform (command.settle w.view).effect).1 := by
  rw [run]
  split <;> next heq => rw [heq]

theorem failure_run_eq_none_iff {command : Command} :
    (w.run command).1.failure = none ↔ (command.settle w.view).report.failure = none ∧
      (w.perform (command.settle w.view).effect).2 = none := by
  rw [run]
  split <;> next heq => simp [heq]

-- What is left of the files after an effect: all of them if it fails, and otherwise all but the one
-- that is written.
theorem file?_perform_of_failure {effect : Effect} (h : (w.perform effect).2 ≠ none)
    (spot : Location) : (w.perform effect).1.file? spot = w.file? spot := by
  cases effect with
  | nothing => rfl
  | write path content =>
    rw [perform] at h ⊢
    split
    · next hwrite => simp [hwrite] at h
    · rfl
  | establish directory path content =>
    have hgrows := grows_makePath w directory
    rw [perform] at h ⊢
    split
    · next heq =>
      rw [heq] at hgrows
      exact hgrows.file?_eq spot
    · next heq =>
      rw [heq] at hgrows
      split
      · next hwrite => simp [heq, hwrite] at h
      · exact hgrows.file?_eq spot

theorem write_of_perform_write {path content : String}
    (h : (w.perform (.write path content)).2 = none) :
    w.write path content = .ok (w.perform (.write path content)).1 := by
  rw [perform] at h ⊢
  split
  · next hwrite => exact hwrite
  · next hwrite => simp [hwrite] at h

-- A file is written once the directories on the way to it have been made.
theorem write_of_perform_establish {directory path content : String}
    (h : (w.perform (.establish directory path content)).2 = none) :
    ∃ between, w.Grows between ∧
      between.write path content = .ok (w.perform (.establish directory path content)).1 := by
  have hgrows := grows_makePath w directory
  rw [perform] at h ⊢
  split
  · next heq => simp [heq] at h
  · next between heq =>
    rw [heq] at hgrows
    refine ⟨between, hgrows, ?_⟩
    split
    · next hwrite => exact hwrite
    · next hwrite => simp [heq, hwrite] at h

theorem Closed.perform (hw : w.Closed) (effect : Effect) : (w.perform effect).1.Closed := by
  cases effect with
  | nothing => exact hw
  | write path content =>
    rw [Workspace.perform]
    split
    · next hwrite => exact hw.write hwrite
    · exact hw
  | establish directory path content =>
    have hmade := hw.makePath directory
    rw [Workspace.perform]
    split
    · next heq => rwa [heq] at hmade
    · next heq =>
      rw [heq] at hmade
      split
      · next hwrite => exact hmade.write hwrite
      · exact hmade

-- The way along a path goes through a directory that is not there and back up out of it.
def BacksOut (w : Workspace) (path : String) : Prop := w.Backs (pieces path)

-- Where nothing is found, nothing was before the directories on the way were made, unless the path
-- backs out of one of them.
theorem Closed.file?_eq_none_of_grows {between : Workspace} {path : String} {spot : Location}
    (hw : w.Closed) (hgrows : w.Grows between) (hmissing : w.exists? path = false)
    (hlocate : between.locate path = .ok spot) (hbacks : ¬ w.BacksOut path) :
    w.file? spot = none := by
  obtain ⟨all, hsteps, hwalk⟩ := locate_eq_ok_iff.mp hlocate
  have hall : all = pieces path := by
    rw [steps] at hsteps
    split at hsteps
    · cases hsteps
    · split at hsteps
      · cases hsteps
      · exact (Except.ok.inj hsteps).symm
  have hentry : w.entry? spot = none := by
    rcases hw.walk_of_grows hgrows (hall ▸ hbacks) hwalk with hsame | ⟨hnew, -⟩
    · have hfound : w.locate path = .ok spot := locate_eq_ok_iff.mpr ⟨all, hsteps, hsame⟩
      rw [exists?, find?, hfound, ok_bind] at hmissing
      cases hentry : w.entry? spot with
      | none => rfl
      | some entry => simp [hentry, Except.isOk, Except.toBool] at hmissing
    · exact hnew
  exact (entry?_eq_none_iff.mp hentry).1

theorem file?_run_of_failure {command : Command} (h : (w.run command).1.failure ≠ none)
    (spot : Location) : (w.run command).2.file? spot = w.file? spot := by
  have hnone : (command.settle w.view).report.failure = none →
      (w.perform (command.settle w.view).effect).2 ≠ none := fun hreport hperform =>
    h (failure_run_eq_none_iff.mpr ⟨hreport, hperform⟩)
  rw [run_snd]
  cases settled w.view command with
  | fails hnothing | looks hnothing =>
    rw [hnothing]
    rfl
  | writes _ _ hreport | establishes _ _ _ hreport =>
    exact file?_perform_of_failure (hnone hreport) spot

-- A command that fails changes no file. One that succeeds writes the file that it names, if it
-- names one, and changes no other, and `init` writes over none, unless its path backs out of a
-- directory that is not there.
theorem run_writes_only_target (hw : w.Closed) (command : Command) :
    (w.run command).2.Closed ∧
    ((w.run command).1.failure ≠ none → ∀ spot, (w.run command).2.file? spot = w.file? spot) ∧
    ((w.run command).1.failure = none → match command.target? with
      | none => (w.run command).2 = w
      | some path => ∃ spot text, command.Writes w.view text ∧
        (w.run command).2.locate path = .ok spot ∧
        (∀ other, (w.run command).2.file? other =
          if other = spot then some text else w.file? other) ∧
        ∀ directory, command = .init directory → w.file? spot ≠ none → w.BacksOut path) := by
  refine ⟨by rw [run_snd]; exact hw.perform _, file?_run_of_failure, fun hsuccess => ?_⟩
  obtain ⟨hreport, hperform⟩ := failure_run_eq_none_iff.mp hsuccess
  rw [run_snd]
  cases settled w.view command with
  | fails _ hfails => exact absurd hreport hfails
  | looks hnothing htarget =>
    rw [hnothing, htarget]
    rfl
  | @writes path text htarget hwrites _ heffect hinit =>
    rw [heffect] at hperform ⊢
    rw [htarget]
    obtain ⟨spot, -, hlocate, hfiles⟩ := exists_spot_of_write (write_of_perform_write hperform)
    exact ⟨spot, text, hwrites, hlocate, hfiles, fun directory h => absurd h (hinit directory)⟩
  | @establishes directory path hcommand hpath hmissing _ heffect =>
    subst hcommand hpath
    rw [heffect] at hperform ⊢
    obtain ⟨between, hgrows, hwrite⟩ := write_of_perform_establish hperform
    obtain ⟨spot, hbefore, hlocate, hfiles⟩ := exists_spot_of_write hwrite
    refine ⟨spot, _, .init directory, hlocate, fun other => ?_, fun _ _ hfile => ?_⟩
    · rw [hfiles, hgrows.file?_eq]
    · by_contra hbacks
      exact hfile (hw.file?_eq_none_of_grows hgrows hmissing hbefore hbacks)

-- A directory with a file of the name that `init` gives to its own.
def oldConfig : Workspace := { files := [(["uiplan.yaml"], "gap: 8")] }

theorem file?_oldConfig (spot : Location) :
    oldConfig.file? spot = if spot = ["uiplan.yaml"] then some "gap: 8" else none := by
  rw [file?, oldConfig, List.lookup_cons]
  by_cases h : spot = ["uiplan.yaml"]
  · simp [h]
  · rw [if_neg h, beq_false_of_ne h]
    rfl

theorem isDirectory_oldConfig {spot : Location} (h : spot.isAtTop = true) :
    oldConfig.isDirectory spot = true := by
  have hne : spot ≠ ["uiplan.yaml"] := by
    rintro rfl
    cases h
  exact isDirectory_iff.mpr ⟨by rw [file?_oldConfig, if_neg hne], .inl h⟩

theorem closed_oldConfig : oldConfig.Closed := by
  constructor
  · exact fun spot htop => (isDirectory_iff.mp (isDirectory_oldConfig htop)).1
  · intro spot hentry
    apply isDirectory_oldConfig
    rw [ne_eq, entry?_eq_none_iff, file?_oldConfig] at hentry
    by_cases hspot : spot = ["uiplan.yaml"]
    · subst hspot
      rfl
    · have hdirectory : oldConfig.isDirectory spot = true := by simpa [hspot] using hentry
      rcases (isDirectory_iff.mp hdirectory).2 with htop | hmem
      · exact List.all_eq_true.mpr fun step hstep =>
          List.all_eq_true.mp htop step (List.dropLast_subset spot hstep)
      · cases hmem

-- In a directory of its own it gets a file of its own.
theorem oldConfig_kept :
    oldConfig.Closed ∧ (oldConfig.run (.init "a")).1.failure = none ∧
    (∃ text, (oldConfig.run (.init "a")).2.file? ["a", "uiplan.yaml"] = some text) ∧
    (oldConfig.run (.init "a")).2.file? ["uiplan.yaml"] = some "gap: 8" := by
  have hsuccess : (oldConfig.run (.init "a")).1.failure = none := by decide
  have hlocate : (oldConfig.run (.init "a")).2.locate "a/uiplan.yaml" =
      .ok ["a", "uiplan.yaml"] := by decide
  obtain ⟨-, -, hwritten⟩ := run_writes_only_target closed_oldConfig (.init "a")
  obtain ⟨spot, text, -, hspot, hfiles, -⟩ := hwritten hsuccess
  obtain rfl : ["a", "uiplan.yaml"] = spot := Except.ok.inj (hlocate.symm.trans hspot)
  refine ⟨closed_oldConfig, hsuccess, ⟨text, ?_⟩, ?_⟩
  · rw [hfiles, if_pos rfl]
  · rw [hfiles, if_neg (by decide), file?_oldConfig, if_pos rfl]

-- The file is written over by way of a directory that is not there.
theorem oldConfig_written_over :
    (oldConfig.run (.init "a/..")).1.failure = none ∧
    oldConfig.file? ["uiplan.yaml"] = some "gap: 8" ∧
    (oldConfig.run (.init "a/..")).2.file? ["uiplan.yaml"] = some standardConfigText ∧
    standardConfigText ≠ "gap: 8" := by
  refine ⟨by decide, rfl, ?_, ?_⟩
  · rfl
  · decide +kernel

end Workspace

end Wireframe
