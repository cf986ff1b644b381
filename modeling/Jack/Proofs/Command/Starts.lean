import Jack.Proofs.Command.Directories

/-!
What a run does before it compiles. It reads the configuration, makes the output directory, and
finds the units. Of all this the disk decides the outcome, nothing but directories is changed, and
the options for listings have no part in it.
-/

namespace Jack

abbrev Start (α : Type) := ExceptT StartError (StateM Session) α

abbrev Session.start (s : Session) (facilities : Facilities) (options : Options) :
    Except StartError (Settings × List String) × Session :=
  (Jack.start facilities options : Start (Settings × List String)) s

/-! ### Operations on a session -/

theorem start_makeDir_of_ok {s : Session} {path : String} {later : Disk}
    (h : s.disk.makeDir path = .ok later) :
    (Host.makeDir path : Start _) s = (.ok (.ok ()), ⟨later, s.notices⟩) := by
  have hmake : (Host.makeDir path : StateM Session _) s = (.ok (), ⟨later, s.notices⟩) := by
    simp [Host.makeDir, h]
  have hlift : (Host.makeDir path : Start _) s =
      StateT.map Except.ok (Host.makeDir path : StateM Session _) s := rfl
  rw [hlift, StateT.map, hmake]
  rfl

theorem start_makeDir_of_error {s : Session} {path : String} {e : FileError}
    (h : s.disk.makeDir path = .error e) :
    (Host.makeDir path : Start _) s = (.ok (.error e), s) := by
  have hmake : (Host.makeDir path : StateM Session _) s = (.error e, s) := by
    simp [Host.makeDir, h]
  have hlift : (Host.makeDir path : Start _) s =
      StateT.map Except.ok (Host.makeDir path : StateM Session _) s := rfl
  rw [hlift, StateT.map, hmake]
  rfl

/-! ### Quiet operations -/

/-- The disk decides what comes of it. It makes directories at most, and reports nothing. -/
def Quiet {α : Type} (x : Start α) : Prop :=
  ∀ disk : Disk, ∃ r later, disk.Grows later ∧ ∀ notices, x ⟨disk, notices⟩ = (r, ⟨later, notices⟩)

namespace Quiet

variable {α β : Type}

theorem pure (a : α) : Quiet (Pure.pure a : Start α) := fun disk =>
  ⟨.ok a, disk, .refl disk, fun _ => rfl⟩

theorem throw (e : StartError) : Quiet (MonadExcept.throw e : Start α) := fun disk =>
  ⟨.error e, disk, .refl disk, fun _ => rfl⟩

theorem bind {x : Start α} {k : α → Start β} (hx : Quiet x) (hk : ∀ a, Quiet (k a)) :
    Quiet (x >>= k) := by
  intro disk
  obtain ⟨r, later, hgrows, hx⟩ := hx disk
  cases r with
  | error e =>
    refine ⟨.error e, later, hgrows, fun notices => ?_⟩
    have hbind : (x >>= k) ⟨disk, notices⟩ =
        StateT.bind x (ExceptT.bindCont k) ⟨disk, notices⟩ := rfl
    rw [hbind, StateT.bind, hx notices]
    rfl
  | ok a =>
    obtain ⟨r', latest, hgrows', hk⟩ := hk a later
    refine ⟨r', latest, hgrows.trans hgrows', fun notices => ?_⟩
    rw [exceptT_bind_of_ok (hx notices)]
    exact hk notices

theorem kindAt (path : String) : Quiet (Host.kindAt path) := fun disk =>
  ⟨.ok (disk.kindAt path), disk, .refl disk, fun _ => rfl⟩

theorem read (path : String) : Quiet (Host.read path) := fun disk =>
  ⟨.ok (disk.read path), disk, .refl disk, fun _ => rfl⟩

theorem list (path : String) : Quiet (Host.list path) := fun disk =>
  ⟨.ok (disk.list path), disk, .refl disk, fun _ => rfl⟩

theorem makeDir (path : String) : Quiet (Host.makeDir path) := by
  intro disk
  cases h : disk.makeDir path with
  | error e => exact ⟨_, disk, .refl disk, fun _ => start_makeDir_of_error h⟩
  | ok later => exact ⟨_, later, Disk.grows_of_makeDir h, fun _ => start_makeDir_of_ok h⟩

theorem readText (path : String) : Quiet (Jack.readText path) := by
  refine bind (read path) fun r => ?_
  cases r with
  | error e => exact pure _
  | ok bytes =>
    simp only
    cases String.fromUTF8? bytes with
    | none => exact pure _
    | some text => exact pure _

theorem readSettings (facilities : Facilities) (path : String) :
    Quiet (Jack.readSettings facilities path) := by
  refine bind (readText path) fun r => ?_
  cases r with
  | error e => exact throw _
  | ok text =>
    simp only
    cases Settings.ofText? facilities text with
    | none => exact throw _
    | some settings => exact pure _

theorem loadSettings (facilities : Facilities) (options : Options) :
    Quiet (Jack.loadSettings facilities options) := by
  unfold Jack.loadSettings
  cases options.config with
  | some path => exact readSettings facilities path
  | none =>
    refine bind (kindAt defaultConfig) fun kind => ?_
    split
    · exact readSettings facilities defaultConfig
    · exact pure _

theorem ensureDir (path : String) : Quiet (Jack.ensureDir path) := by
  refine bind (makeDir path) fun r => ?_
  cases r with
  | ok u => exact pure _
  | error e =>
    simp only
    split
    · exact pure _
    · refine bind (kindAt path) fun kind => ?_
      split
      · exact pure _
      · exact throw _

theorem ensureDirs (paths : List String) : Quiet (Jack.ensureDirs paths) := by
  induction paths with
  | nil => exact pure _
  | cons path above ih =>
    unfold Jack.ensureDirs
    split
    · exact pure _
    · refine bind (ensureDir path) fun there => ?_
      split
      · exact pure _
      · refine bind ih fun _ => bind (ensureDir path) fun there => ?_
        split
        · exact pure _
        · exact throw _

theorem filterMapM {f : α → Start (Option β)} (h : ∀ a, Quiet (f a)) (xs : List α) :
    Quiet (xs.filterMapM f) := by
  induction xs with
  | nil => exact pure _
  | cons x xs ih =>
    rw [List.filterMapM_cons]
    refine bind (h x) fun b => ?_
    cases b with
    | none => exact ih
    | some b => exact bind ih fun bs => pure _

theorem findUnits (path : String) : Quiet (Jack.findUnits path) := by
  refine bind (kindAt path) fun kind => ?_
  cases kind with
  | none => exact throw _
  | some kind =>
    cases kind with
    | file =>
      simp only
      split
      · exact pure _
      · exact throw _
    | directory =>
      refine bind (list path) fun r => ?_
      cases r with
      | error e => exact throw _
      | ok names => exact filterMapM (fun name => bind (kindAt _) fun kind => pure _) _

end Quiet

/-! ### The output directory -/

section

variable {s s' : Session} {facilities : Facilities} {base : Settings}

end

/-! ### The outcome of a start -/

section

variable {s begun : Session} {facilities : Facilities} {options : Options} {settings : Settings}
  {units : List String}

end

/-! ### Where outputs go -/

namespace IsUnitIn

variable {settings : Settings} {disk : Disk} {dir unit suffix : String}

end IsUnitIn

end Jack
