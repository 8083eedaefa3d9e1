import Mathlib.Data.List.Induction
import Wireframe.Command.Workspace
import Wireframe.Proofs.Validity

namespace Wireframe.Workspace

variable {w after : Workspace} {spot place : Location} {steps : List String}

theorem isDirectory_iff : w.isDirectory spot = true ↔
    w.file? spot = none ∧ (spot.isAtTop = true ∨ spot ∈ w.directories) := by
  rw [isDirectory, entry?, beq_iff_eq]
  cases w.file? spot with
  | some content => simp
  | none =>
    by_cases htop : spot.isAtTop = true
    · simp [htop]
    · simp [htop, List.contains_eq_mem]

theorem entry?_eq_none_iff : w.entry? spot = none ↔
    w.file? spot = none ∧ w.isDirectory spot = false := by
  rw [isDirectory, entry?]
  cases hfile : w.file? spot with
  | some content => simp
  | none =>
    by_cases hthere : spot.isAtTop || w.directories.contains spot <;> simp

theorem entry?_eq_directory (h : w.isDirectory spot = true) : w.entry? spot = some .directory :=
  beq_iff_eq.mp h

-- A way of one more step: it starts from a directory.
theorem walk_cons {step : String} : w.walk spot (step :: steps) = .ok place ↔
    w.isDirectory spot = true ∧ step.utf8ByteSize ≤ longestName ∧
      w.walk (enter spot step) steps = .ok place := by
  rw [walk, isDirectory]
  cases w.entry? spot with
  | none => simp
  | some entry =>
    cases entry with
    | file content => simp
    | directory =>
      by_cases hlong : longestName < step.utf8ByteSize
      · simp [hlong, Nat.not_le.mpr hlong]
      · simp [hlong, Nat.not_lt.mp hlong]

theorem walk_append {more : List String} : w.walk spot (steps ++ more) = .ok place ↔
    ∃ between, w.walk spot steps = .ok between ∧ w.walk between more = .ok place := by
  induction steps generalizing spot with
  | nil => simp [walk]
  | cons step steps ih =>
    rw [List.cons_append, walk_cons, ih]
    constructor
    · rintro ⟨hdirectory, hlength, between, hfirst, hmore⟩
      exact ⟨between, walk_cons.mpr ⟨hdirectory, hlength, hfirst⟩, hmore⟩
    · rintro ⟨between, hfirst, hmore⟩
      obtain ⟨hdirectory, hlength, hrest⟩ := walk_cons.mp hfirst
      exact ⟨hdirectory, hlength, between, hrest, hmore⟩

-- Where there are more directories, every way leads to the same place.
theorem walk_mono (h : ∀ spot, w.isDirectory spot = true → after.isDirectory spot = true)
    (hwalk : w.walk spot steps = .ok place) : after.walk spot steps = .ok place := by
  induction steps generalizing spot with
  | nil => exact hwalk
  | cons step steps ih =>
    obtain ⟨hdirectory, hlength, hrest⟩ := walk_cons.mp hwalk
    exact walk_cons.mpr ⟨h spot hdirectory, hlength, ih hrest⟩

theorem locate_eq_ok_iff {path : String} : w.locate path = .ok place ↔
    ∃ all, Workspace.steps path = .ok all ∧ w.walk [] all = .ok place :=
  bind_eq_ok_iff

theorem lookup_filter_ne {files : List (Location × String)} {other : Location}
    (h : other ≠ spot) :
    (files.filter fun entry => entry.1 != spot).lookup other = files.lookup other := by
  induction files with
  | nil => rfl
  | cons entry rest ih =>
    by_cases hentry : entry.1 = spot
    · have hne : (other == entry.1) = false := beq_false_of_ne (hentry ▸ h)
      rw [List.filter_cons_of_neg (by simp [hentry]), ih, List.lookup_cons, hne]
    · rw [List.filter_cons_of_pos (by simp [hentry]), List.lookup_cons, List.lookup_cons, ih]

theorem file?_putFile (content : String) (other : Location) :
    (w.putFile spot content).file? other =
      if other = spot then some content else w.file? other := by
  rw [file?, putFile, List.lookup_cons]
  by_cases h : other = spot
  · rw [if_pos h, beq_iff_eq.mpr h]
  · rw [if_neg h, beq_false_of_ne h]
    exact lookup_filter_ne h

-- A file that takes the place of no directory leaves all directories.
theorem isDirectory_putFile (hspot : w.isDirectory spot = false) (content : String)
    (other : Location) : (w.putFile spot content).isDirectory other = w.isDirectory other := by
  rw [Bool.eq_iff_iff, isDirectory_iff, isDirectory_iff, file?_putFile]
  by_cases h : other = spot
  · subst h
    have hnot : ¬ (w.file? other = none ∧ (other.isAtTop = true ∨ other ∈ w.directories)) := by
      rw [← isDirectory_iff, hspot]
      decide
    simp [hnot]
  · rw [if_neg h]
    rfl

theorem walk_putFile (hspot : w.isDirectory spot = false) (content : String) {start : Location} :
    (w.putFile spot content).walk start steps = .ok place ↔ w.walk start steps = .ok place :=
  ⟨walk_mono fun other h => by rwa [isDirectory_putFile hspot] at h,
    walk_mono fun other h => by rwa [isDirectory_putFile hspot]⟩

-- What is written to is no directory, and that is all that changes.
theorem putFile_of_write {path content : String} (h : w.write path content = .ok after) :
    ∃ spot, w.locate path = .ok spot ∧ w.isDirectory spot = false ∧
      after = w.putFile spot content := by
  obtain ⟨all, hsteps, h⟩ := bind_eq_ok_iff.mp h
  dsimp only at h
  split at h
  · obtain ⟨_, -, ⟨⟩⟩ := bind_eq_ok_iff.mp h
  · next hend =>
    obtain ⟨spot, hwalk, h⟩ := bind_eq_ok_iff.mp h
    split at h
    · cases h
    · next hspot =>
      have hend : withoutEnd all = all := by simpa using hend
      rw [hend] at hwalk
      refine ⟨spot, locate_eq_ok_iff.mpr ⟨all, hsteps, hwalk⟩, by simpa using hspot, ?_⟩
      exact (Except.ok.inj h).symm

-- A file that has been written is found where it was written, with what was written.
theorem exists_spot_of_write {path content : String} (h : w.write path content = .ok after) :
    ∃ spot, w.locate path = .ok spot ∧ after.locate path = .ok spot ∧
      ∀ other, after.file? other = if other = spot then some content else w.file? other := by
  obtain ⟨spot, hlocate, hspot, rfl⟩ := putFile_of_write h
  obtain ⟨all, hsteps, hwalk⟩ := locate_eq_ok_iff.mp hlocate
  exact ⟨spot, hlocate, locate_eq_ok_iff.mpr ⟨all, hsteps, (walk_putFile hspot content).mpr hwalk⟩,
    file?_putFile content⟩

-- The same files, and all directories that were there before.
structure Grows (w after : Workspace) : Prop where
  file?_eq (spot : Location) : after.file? spot = w.file? spot
  isDirectory (spot : Location) : w.isDirectory spot = true → after.isDirectory spot = true

theorem Grows.refl (w : Workspace) : w.Grows w := ⟨fun _ => rfl, fun _ => id⟩

theorem Grows.trans {between : Workspace} (h : w.Grows between) (h' : between.Grows after) :
    w.Grows after :=
  ⟨fun spot => (h'.file?_eq spot).trans (h.file?_eq spot),
    fun spot hspot => h'.isDirectory spot (h.isDirectory spot hspot)⟩

-- The directory is made where nothing was.
theorem makeDirectory_eq_ok_iff : w.makeDirectory steps = .ok after ↔
    ∃ spot, w.walk [] (withoutEnd steps) = .ok spot ∧ w.entry? spot = none ∧
      after = { w with directories := spot :: w.directories } := by
  rw [makeDirectory, bind_eq_ok_iff]
  refine exists_congr fun spot => and_congr_right fun _ => ?_
  cases w.entry? spot with
  | some entry => simp
  | none => simp [pure, Except.pure, eq_comm]

theorem grows_cons (spot : Location) : w.Grows { w with directories := spot :: w.directories } := by
  refine ⟨fun _ => rfl, fun other hother => ?_⟩
  obtain ⟨hfile, hother⟩ := isDirectory_iff.mp hother
  exact isDirectory_iff.mpr ⟨hfile, hother.imp_right (List.mem_cons_of_mem spot)⟩

theorem ensureDirectory_eq_ok (h : w.ensureDirectory steps = .ok after) :
    w.makeDirectory steps = .ok after ∨ after = w := by
  rw [ensureDirectory] at h
  split at h
  · next hmade => exact .inl (hmade.trans h)
  · split at h
    · split at h
      · exact .inr (Except.ok.inj h).symm
      · cases h
    · cases h

-- What holds of a workspace holds after an attempt to make directories, if it is kept whenever one
-- is made.
theorem makeDirectories_induction {P : Workspace → Prop}
    (hstep : ∀ {w after : Workspace} {steps : List String}, P w →
      w.makeDirectory steps = .ok after → P after)
    (hw : P w) (levels : Nat) (steps above : List String) :
    P (w.makeDirectories levels steps above).1 := by
  have hensure {w after : Workspace} {steps : List String} (hw : P w)
      (h : w.ensureDirectory steps = .ok after) : P after := by
    rcases ensureDirectory_eq_ok h with hmade | rfl
    · exact hstep hw hmade
    · exact hw
  induction levels generalizing steps above with
  | zero => exact hw
  | succ levels ih =>
    rw [makeDirectories]
    split
    · next hmade => exact hensure hw hmade
    · have hparent : P (if above.dropLast.isEmpty then (w, none)
          else w.makeDirectories levels above.dropLast above.dropLast).1 := by
        split
        · exact hw
        · exact ih above.dropLast above.dropLast
      dsimp only
      split
      · next heq => rwa [heq] at hparent
      · next heq =>
        rw [heq] at hparent
        split
        · next hmade => exact hensure hparent hmade
        · exact hparent
    · exact hw

theorem makePath_induction {P : Workspace → Prop}
    (hstep : ∀ {w after : Workspace} {steps : List String}, P w →
      w.makeDirectory steps = .ok after → P after)
    (hw : P w) (path : String) : P (w.makePath path).1 := by
  rw [makePath]
  split
  · exact makeDirectories_induction hstep hw _ _ _
  · exact hw

theorem grows_makePath (w : Workspace) (path : String) : w.Grows (w.makePath path).1 := by
  refine makePath_induction (P := w.Grows) (fun hgrows hmade => ?_) (.refl w) path
  obtain ⟨spot, -, -, rfl⟩ := makeDirectory_eq_ok_iff.mp hmade
  exact hgrows.trans (grows_cons spot)

-- Whatever there is lies in a directory, and so does the top.
structure Closed (w : Workspace) : Prop where
  top : ∀ spot : Location, spot.isAtTop = true → w.file? spot = none
  parent : ∀ spot, w.entry? spot ≠ none → w.isDirectory spot.dropLast = true

theorem Closed.isDirectory_of_isAtTop (hw : w.Closed) (h : spot.isAtTop = true) :
    w.isDirectory spot = true :=
  isDirectory_iff.mpr ⟨hw.top spot h, .inl h⟩

theorem Closed.parent_of_isDirectory (hw : w.Closed) (h : w.isDirectory spot = true) :
    w.isDirectory spot.dropLast = true := by
  apply hw.parent
  rw [entry?_eq_directory h]
  exact nofun

-- A step from a directory leads to a place in a directory.
theorem Closed.parent_of_enter (hw : w.Closed) (h : w.isDirectory spot = true) (step : String) :
    w.isDirectory (enter spot step).dropLast = true := by
  have hparent := hw.parent_of_isDirectory h
  rw [enter]
  split
  · exact hparent
  · split
    · exact hw.parent_of_isDirectory hparent
    · rwa [List.dropLast_concat]

theorem Closed.parent_of_walk (hw : w.Closed) (hwalk : w.walk spot steps = .ok place)
    (hspot : w.isDirectory spot.dropLast = true) : w.isDirectory place.dropLast = true := by
  induction steps generalizing spot with
  | nil =>
    obtain rfl := Except.ok.inj hwalk
    exact hspot
  | cons step steps ih =>
    obtain ⟨hdirectory, -, hrest⟩ := walk_cons.mp hwalk
    exact ih hrest (hw.parent_of_enter hdirectory step)

theorem Closed.parent_of_walk_nil (hw : w.Closed) (hwalk : w.walk [] steps = .ok place) :
    w.isDirectory place.dropLast = true :=
  hw.parent_of_walk hwalk (hw.isDirectory_of_isAtTop rfl)

theorem Closed.makeDirectory (hw : w.Closed) (h : w.makeDirectory steps = .ok after) :
    after.Closed := by
  obtain ⟨spot, hwalk, hnew, rfl⟩ := makeDirectory_eq_ok_iff.mp h
  have hgrows := grows_cons (w := w) spot
  refine ⟨hw.top, fun other hother => hgrows.isDirectory _ ?_⟩
  by_cases hsame : other = spot
  · subst hsame
    exact hw.parent_of_walk_nil hwalk
  · apply hw.parent
    rw [ne_eq, entry?_eq_none_iff, Bool.eq_false_iff, ne_eq, isDirectory_iff] at hother ⊢
    simpa [hsame, file?] using hother

theorem Closed.makePath (hw : w.Closed) (path : String) : (w.makePath path).1.Closed :=
  makePath_induction (P := Closed) (fun hclosed hmade => hclosed.makeDirectory hmade) hw path

theorem Closed.write {path content : String} (hw : w.Closed)
    (h : w.write path content = .ok after) : after.Closed := by
  obtain ⟨spot, hlocate, hspot, rfl⟩ := putFile_of_write h
  obtain ⟨all, -, hwalk⟩ := locate_eq_ok_iff.mp hlocate
  constructor
  · intro other htop
    have hne : other ≠ spot := by
      rintro rfl
      rw [hw.isDirectory_of_isAtTop htop] at hspot
      cases hspot
    rw [file?_putFile, if_neg hne, hw.top other htop]
  · intro other hother
    rw [isDirectory_putFile hspot]
    by_cases hsame : other = spot
    · subst hsame
      exact hw.parent_of_walk_nil hwalk
    · apply hw.parent
      rwa [ne_eq, entry?_eq_none_iff, file?_putFile, if_neg hsame, isDirectory_putFile hspot,
        ← entry?_eq_none_iff] at hother

-- The steps go through a directory that is not there and back up out of it.
def Backs (w : Workspace) (steps : List String) : Prop :=
  ∃ before rest, steps = before ++ ".." :: rest ∧
    ∀ spot, w.walk [] before = .ok spot → w.isDirectory spot = false

theorem Backs.append {more : List String} (h : w.Backs steps) : w.Backs (steps ++ more) := by
  obtain ⟨before, rest, rfl, hbefore⟩ := h
  exact ⟨before, rest ++ more, by simp, hbefore⟩

theorem Grows.entry?_eq_none (hgrows : w.Grows after) (hthere : after.isDirectory spot = true)
    (hmissing : w.isDirectory spot = false) : w.entry? spot = none := by
  rw [entry?_eq_none_iff, ← hgrows.file?_eq spot]
  exact ⟨(isDirectory_iff.mp hthere).1, hmissing⟩

theorem Closed.entry?_eq_none_of_dropLast (hw : w.Closed)
    (h : w.isDirectory spot.dropLast = false) : w.entry? spot = none := by
  by_contra hthere
  rw [hw.parent spot hthere] at h
  cases h

-- A step from a directory that was not there before, other than up, leads to something that was not
-- there either.
theorem Closed.entry?_enter_eq_none (hw : w.Closed) (hspot : w.entry? spot = none) {step : String}
    (hstep : step ≠ "..") : w.entry? (enter spot step) = none := by
  rw [enter]
  split
  · exact hspot
  · rw [if_neg (by simp [hstep])]
    apply hw.entry?_eq_none_of_dropLast
    rw [List.dropLast_concat]
    exact (entry?_eq_none_iff.mp hspot).2

-- Once directories have been made, a way that does not back out of them leads to the same place as
-- before, or to one where nothing was.
theorem Closed.walk_of_grows (hw : w.Closed) (hgrows : w.Grows after) (hbacks : ¬ w.Backs steps)
    (hwalk : after.walk [] steps = .ok place) :
    w.walk [] steps = .ok place ∨ w.entry? place = none ∧
      ∀ spot, w.walk [] steps = .ok spot → w.isDirectory spot = false := by
  induction steps using List.reverseRecOn generalizing place with
  | nil => exact .inl hwalk
  | append_singleton steps step ih =>
    obtain ⟨between, hfirst, hlast⟩ := walk_append.mp hwalk
    obtain ⟨hthere, hlength, hplace⟩ := walk_cons.mp hlast
    obtain rfl : enter between step = place := Except.ok.inj hplace
    have hbefore := ih (fun h => hbacks h.append) hfirst
    by_cases hdirectory : ∃ spot, w.walk [] steps = .ok spot ∧ w.isDirectory spot = true
    · obtain ⟨spot, hspot, hdirectory⟩ := hdirectory
      rcases hbefore with hsame | ⟨-, hnone⟩
      · obtain rfl : spot = between := Except.ok.inj (hspot.symm.trans hsame)
        exact .inl (walk_append.mpr ⟨spot, hsame, walk_cons.mpr ⟨hdirectory, hlength, rfl⟩⟩)
      · rw [hnone spot hspot] at hdirectory
        cases hdirectory
    · have hnone : ∀ spot, w.walk [] steps = .ok spot → w.isDirectory spot = false :=
        fun spot hspot => by
          by_contra hcontra
          exact hdirectory ⟨spot, hspot, Bool.not_eq_false _ ▸ hcontra⟩
      have hup : step ≠ ".." := by
        rintro rfl
        exact hbacks ⟨steps, [], rfl, hnone⟩
      have hnew : w.entry? between = none := by
        rcases hbefore with hsame | ⟨hnew, -⟩
        · exact hgrows.entry?_eq_none hthere (hnone between hsame)
        · exact hnew
      refine .inr ⟨hw.entry?_enter_eq_none hnew hup, fun spot hspot => ?_⟩
      obtain ⟨missing, hmissing, hstep⟩ := walk_append.mp hspot
      have hthere := (walk_cons.mp hstep).1
      rw [hnone missing hmissing] at hthere
      cases hthere

end Wireframe.Workspace
