import Jack.Proofs.Command.Order

/-!
Directories that are made. A new one comes where nothing was and under a name that an entry can
have, so what was on the disk before stays as it is, and the ways to it. From then on names are
looked up in it.
-/

namespace Jack.Disk

open Jack.Path

/-! ### Idle parts -/

section

variable {disk : Disk} {way way' ps : List String}

theorem walk_of_idle (hway : disk.get? way = some .directory)
    (h : ∀ part ∈ ps, isIdle part = true) : disk.walk way ps = .ok way := by
  induction ps with
  | nil => rfl
  | cons part ps ih =>
    rw [List.forall_mem_cons] at h
    simp only [walk, hway, h.1, if_true]
    exact ih h.2

/-- Idle parts lead nowhere else, and only a directory can have them behind it. -/
theorem walk_idle_eq_ok (h : ∀ part ∈ ps, isIdle part = true)
    (hwalk : disk.walk way ps = .ok way') :
    way' = way ∧ (ps ≠ [] → disk.get? way = some .directory) := by
  cases ps with
  | nil => exact ⟨(Except.ok.inj hwalk).symm, fun hne => absurd rfl hne⟩
  | cons part ps =>
    have hway : disk.get? way = some .directory := by
      cases hway : disk.get? way with
      | none => simp [walk, hway] at hwalk
      | some entry =>
        cases entry with
        | file bytes => simp [walk, hway] at hwalk
        | directory => rfl
    rw [walk_of_idle hway h] at hwalk
    exact ⟨(Except.ok.inj hwalk).symm, fun _ => hway⟩

theorem walk_append_eq_ok {qs : List String} :
    disk.walk way (ps ++ qs) = .ok way' ↔
      ∃ middle, disk.walk way ps = .ok middle ∧ disk.walk middle qs = .ok way' := by
  rw [walk_append]
  cases disk.walk way ps <;> simp [bind, Except.bind]

theorem walk_trim (h : disk.walk way ps = .ok way') : disk.walk way (trim ps) = .ok way' := by
  obtain ⟨tail, hps, htail⟩ := exists_eq_trim_append ps
  rw [hps] at h
  obtain ⟨middle, hfront, hback⟩ := walk_append_eq_ok.1 h
  rw [(walk_idle_eq_ok htail hback).1]
  exact hfront

/-- The directory around what is in a directory is the same one. -/
theorem HasDir.around {dir : String} (h : disk.HasDir dir) : disk.HasDir (around dir) := by
  obtain ⟨way, hwalk, hway⟩ := h
  have horigin : origin (Path.around dir) = origin dir := by
    simp only [origin, startsWith_slash_around]
  refine ⟨way, ?_, hway⟩
  rw [walkDir, horigin, dirParts_around]
  exact walk_trim hwalk

end

/-! ### Names on ways -/

/-- Names below a directory that is always there. -/
def Rooted (way : List String) : Prop :=
  ∃ base names, way = base ++ names ∧ isFixed base = true ∧ ∀ name ∈ names, IsName name

theorem isFixed_append_name (way : List String) {name : String} (h : IsName name) :
    isFixed (way ++ [name]) = false := by
  have hroot : way ++ [name] ≠ ["/"] := by
    intro heq
    have hlast : name = "/" := by simpa using congrArg List.getLast? heq
    exact h.1 (hlast ▸ by decide)
  simp [isFixed, hroot, h.2.2]

theorem rooted_origin (path : String) : Rooted (origin path) := by
  refine ⟨origin path, [], by simp, ?_, by simp⟩
  unfold origin
  split <;> decide

theorem Rooted.up {way : List String} (h : Rooted way) : Rooted (up way) := by
  obtain ⟨base, names, rfl, hbase, hnames⟩ := h
  rcases List.eq_nil_or_concat names with rfl | ⟨front, name, rfl⟩
  · -- Above a directory that is always there is another one.
    rw [List.append_nil] at *
    unfold Disk.up
    split
    · exact ⟨base, [], by simp, hbase, by simp⟩
    · rename_i hroot
      refine ⟨base ++ [".."], [], by simp, ?_, by simp⟩
      rw [isFixed, decide_eq_false hroot, Bool.or_false] at hbase
      simp [isFixed, hbase]
  · rw [List.concat_eq_append] at *
    have hfixed := isFixed_append_name (base ++ front) (hnames name (by simp))
    have hroot : base ++ front ++ [name] ≠ ["/"] := by
      intro heq
      rw [heq] at hfixed
      exact absurd hfixed (by decide)
    refine ⟨base, front, ?_, hbase, fun n hn => hnames n (List.mem_append_left _ hn)⟩
    unfold Disk.up
    rw [← List.append_assoc, if_neg hroot, hfixed]
    exact List.dropLast_concat

theorem Rooted.walk {disk : Disk} {way way' ps : List String} (h : Rooted way)
    (hps : ∀ part ∈ ps, '/' ∉ part.toList) (hwalk : disk.walk way ps = .ok way') : Rooted way' := by
  induction ps generalizing way with
  | nil =>
    rw [← Except.ok.inj hwalk]
    exact h
  | cons part ps ih =>
    rw [List.forall_mem_cons] at hps
    cases hway : disk.get? way with
    | none => simp [Disk.walk, hway] at hwalk
    | some entry =>
      cases entry with
      | file bytes => simp [Disk.walk, hway] at hwalk
      | directory =>
        simp only [Disk.walk, hway] at hwalk
        by_cases hidle : isIdle part = true
        · rw [if_pos hidle] at hwalk
          exact ih h hps.2 hwalk
        · rw [if_neg hidle] at hwalk
          by_cases hup : part = ".."
          · rw [if_pos hup] at hwalk
            exact ih h.up hps.2 hwalk
          · rw [if_neg hup] at hwalk
            by_cases hlong : maxName < part.utf8ByteSize
            · simp [hlong] at hwalk
            · rw [if_neg hlong] at hwalk
              have hname : IsName part := ⟨hps.1, Bool.eq_false_iff.2 hidle, hup⟩
              refine ih ?_ hps.2 hwalk
              obtain ⟨base, names, rfl, hbase, hnames⟩ := h
              exact ⟨base, names ++ [part], by simp, hbase, List.forall_mem_append.2
                ⟨hnames, List.forall_mem_singleton.2 hname⟩⟩

/-- What is not always there is under a name. -/
theorem Rooted.isName {way : List String} {name : String} (h : Rooted way)
    (hfixed : isFixed way = false) (hlast : way.getLast? = some name) : IsName name := by
  obtain ⟨base, names, rfl, hbase, hnames⟩ := h
  rcases List.eq_nil_or_concat names with rfl | ⟨front, last, rfl⟩
  · simp [hbase] at hfixed
  · rw [List.concat_eq_append] at *
    obtain rfl : last = name := by simpa using hlast
    exact hnames last (by simp)

/-! ### Disks that grow -/

/-- The later disk has more directories, with names that entries can have, and is the same
otherwise. -/
structure Grows (disk later : Disk) : Prop where
  get? : ∀ way, later.get? way = disk.get? way ∨
    (disk.get? way = none ∧ later.get? way = some .directory)
  wellNamed : disk.WellNamed → later.WellNamed

namespace Grows

variable {disk later latest : Disk}

theorem refl (disk : Disk) : disk.Grows disk := ⟨fun _ => .inl rfl, id⟩

theorem trans (h : disk.Grows later) (h' : later.Grows latest) : disk.Grows latest where
  get? way := by
    rcases h'.get? way with heq | ⟨hnone, hdirectory⟩
    · rw [heq]
      exact h.get? way
    · rcases h.get? way with heq' | ⟨-, hdirectory'⟩
      · exact .inr ⟨heq' ▸ hnone, hdirectory⟩
      · simp [hdirectory'] at hnone
  wellNamed := h'.wellNamed ∘ h.wellNamed

theorem get?_of_ne_none (h : disk.Grows later) {way : List String} (hway : disk.get? way ≠ none) :
    later.get? way = disk.get? way := by
  rcases h.get? way with heq | ⟨hnone, -⟩
  · exact heq
  · exact absurd hnone hway

theorem walk (h : disk.Grows later) {way way' ps : List String}
    (hwalk : disk.walk way ps = .ok way') : later.walk way ps = .ok way' := by
  refine walk_of_directories (fun way hway => ?_) hwalk
  rw [h.get?_of_ne_none (by simp [hway]), hway]

end Grows

theorem mem_putEntry {way : List String} {entry : Entry} {entries : List (List String × Entry)}
    {e : List String × Entry} (h : e ∈ putEntry way entry entries) :
    e = (way, entry) ∨ e ∈ entries := by
  induction entries with
  | nil => exact .inl (List.mem_singleton.1 h)
  | cons head entries ih =>
    rw [putEntry] at h
    split at h
    · rcases List.mem_cons.1 h with rfl | h
      · exact .inl rfl
      · exact .inr (List.mem_cons_of_mem _ h)
    · rcases List.mem_cons.1 h with rfl | h
      · exact .inr List.mem_cons_self
      · exact (ih h).imp_right (List.mem_cons_of_mem _)

theorem isFixed_of_none {disk : Disk} {way : List String} (h : disk.get? way = none) :
    isFixed way = false := by
  have hne : disk.get? way ≠ some .directory := by simp [h]
  exact isFixed_of_ne hne

theorem grows_put {disk : Disk} {way : List String} (hnone : disk.get? way = none)
    (hway : Rooted way) : disk.Grows (disk.put way .directory) where
  get? other := by
    by_cases hother : other = way
    · subst hother
      exact .inr ⟨hnone, get?_put_self disk _ (isFixed_of_none hnone)⟩
    · exact .inl (get?_put_of_ne disk _ hother)
  wellNamed hnamed := by
    intro entry hentry name hlast
    rcases mem_putEntry hentry with rfl | hentry
    · exact hway.isName (isFixed_of_none hnone) hlast
    · exact hnamed entry hentry name hlast

/-! ### A directory that is made -/

section

variable {disk later : Disk} {path : String}

/-- The parts of a path without the empty ones at the end. -/
def solidParts (path : String) : List String := ((parts path).reverse.dropWhile (· = "")).reverse

theorem exists_parts_eq (path : String) :
    ∃ tail, parts path = solidParts path ++ tail ∧ ∀ part ∈ tail, isIdle part = true := by
  obtain ⟨tail, hparts, htail⟩ := exists_eq_dropWhile_append (· = "") (parts path)
  refine ⟨tail, hparts, fun part hpart => ?_⟩
  simp [isIdle, of_decide_eq_true (htail part hpart)]

theorem makeDir_eq_ok (h : disk.makeDir path = .ok later) :
    ∃ way, pathFault? path = none ∧ disk.walk (origin path) (solidParts path) = .ok way ∧
      disk.get? way = none ∧ later = disk.put way .directory := by
  unfold makeDir at h
  cases hfault : pathFault? path with
  | some e => simp [hfault, bind, Except.bind] at h
  | none =>
    simp only [hfault, bind, Except.bind] at h
    cases hwalk : disk.walk (origin path) (solidParts path) with
    | error e =>
      rw [solidParts] at hwalk
      simp [hwalk] at h
    | ok way =>
      rw [solidParts] at hwalk
      simp only [hwalk] at h
      cases hway : disk.get? way with
      | some entry => simp [hway] at h
      | none =>
        simp only [hway, Except.ok.injEq] at h
        exact ⟨way, rfl, rfl, hway, h.symm⟩

theorem rooted_of_walk {way : List String}
    (h : disk.walk (origin path) (solidParts path) = .ok way) : Rooted way := by
  refine (rooted_origin path).walk (fun part hpart => ?_) h
  obtain ⟨tail, hparts, -⟩ := exists_parts_eq path
  have hmem : part ∈ parts path := by
    rw [hparts]
    exact List.mem_append_left _ hpart
  exact slash_notMem_parts hmem

theorem grows_of_makeDir (h : disk.makeDir path = .ok later) : disk.Grows later := by
  obtain ⟨way, -, hwalk, hnone, rfl⟩ := makeDir_eq_ok h
  exact grows_put hnone (rooted_of_walk hwalk)

end

end Jack.Disk
