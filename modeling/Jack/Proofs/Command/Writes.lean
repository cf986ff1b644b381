import Jack.Command.Disk
import Jack.Proofs.Command.Paths

/-!
Files written into a directory. A file is only put where no directory is, so the ways to directories
stay what they are, and with them the places of all other names in the directory. What a list of
writes leaves at a place is what the last of them put there.
-/

namespace Jack.Disk

open Jack.Path

/-! ### Walks -/

theorem walk_append (disk : Disk) (way ps qs : List String) :
    disk.walk way (ps ++ qs) = disk.walk way ps >>= fun w => disk.walk w qs := by
  induction ps generalizing way with
  | nil => rfl
  | cons p ps ih =>
    simp only [List.cons_append, walk]
    cases disk.get? way with
    | none => rfl
    | some entry =>
      cases entry with
      | file bytes => rfl
      | directory =>
        simp only [ih]
        split
        · rfl
        · split
          · rfl
          · split <;> rfl

/-- A name leads on from a directory, if it is not too long. -/
theorem walk_name_eq_ok {disk : Disk} {way way' : List String} {name : String} (h : IsName name) :
    disk.walk way [name] = .ok way' ↔
      disk.get? way = some .directory ∧ name.utf8ByteSize ≤ maxName ∧ way' = way ++ [name] := by
  simp only [walk, h.2.1, h.2.2, if_false, Bool.false_eq_true]
  cases disk.get? way with
  | none => simp
  | some entry =>
    cases entry with
    | file bytes => simp
    | directory =>
      by_cases hlong : maxName < name.utf8ByteSize
      · simp [hlong, Nat.not_le.2 hlong]
      · simp [hlong, Nat.not_lt.1 hlong, eq_comm]

/-- What a name leads to depends on the directory alone. -/
theorem walk_name_congr {disk later : Disk} {way : List String} {name : String}
    (h : later.get? way = disk.get? way) : later.walk way [name] = disk.walk way [name] := by
  simp only [walk, h]

/-- The way to the directory that names are joined to. -/
def walkDir (disk : Disk) (dir : String) : Except FileError (List String) :=
  disk.walk (origin dir) (dirParts dir)

theorem origin_append {front : String} (back : String) (h : front ≠ "") :
    origin (front ++ back) = origin front := by
  have hstarts : (front ++ back).startsWith "/" = front.startsWith "/" := by
    rw [Bool.eq_iff_iff, String.startsWith_string_iff, String.startsWith_string_iff,
      String.toList_append]
    cases hfront : front.toList with
    | nil => exact absurd (String.toList_inj.1 hfront) h
    | cons c cs => simp
  simp only [origin, hstarts]

theorem origin_join (dir : String) {name : String} (h : IsName name) :
    origin (join dir name) = origin dir := by
  have hname : name.startsWith "/" = false := by
    rw [String.startsWith_string_eq_false_iff]
    intro hslash
    exact h.1 (hslash.subset (by simp))
  unfold join
  split
  · rename_i hempty
    subst hempty
    simp [origin, hname]
  · rename_i hne
    split
    · exact origin_append name hne
    · rw [String.append_assoc]
      exact origin_append _ hne

theorem find_join (disk : Disk) (dir : String) {name : String} (h : IsName name) :
    disk.find (join dir name) = (pathFault? (join dir name)).elim
      (disk.walkDir dir >>= fun way => disk.walk way [name]) .error := by
  unfold find walkDir
  rw [parts_join dir h, origin_join dir h, walk_append]
  cases pathFault? (join dir name) <;> rfl

theorem find_of_kindAt {disk : Disk} {path : String} (h : disk.kindAt path = some .directory) :
    ∃ way, disk.find path = .ok way ∧ disk.get? way = some .directory := by
  unfold kindAt at h
  cases hfind : disk.find path with
  | error e => simp [hfind] at h
  | ok way =>
    simp only [hfind] at h
    refine ⟨way, rfl, ?_⟩
    cases hway : disk.get? way with
    | none => simp [hway] at h
    | some entry =>
      cases entry with
      | file bytes => simp [hway] at h
      | directory => rfl

/-- A directory is where the names joined to it are. -/
theorem walkDir_of_find {disk : Disk} {dir : String} {way : List String}
    (h : disk.find dir = .ok way) : disk.walkDir dir = .ok way := by
  unfold find at h
  cases hfault : pathFault? dir with
  | some e => simp [hfault] at h
  | none =>
    simp only [hfault] at h
    have hne : dir ≠ "" := by
      rintro rfl
      simp [pathFault?] at hfault
    unfold walkDir dirParts
    by_cases hslash : dir.endsWith "/" = true
    · -- Behind the slash is an idle part, which leads nowhere else.
      obtain ⟨front, rfl⟩ := endsWith_slash hslash
      rw [parts_append_slash] at h ⊢
      rw [walk_append] at h
      simp only [hslash, Bool.or_true, if_true, List.dropLast_concat]
      cases hwalk : disk.walk (origin (front ++ "/")) (parts front) with
      | error e => simp [hwalk, bind, Except.bind] at h
      | ok way' =>
        have hidle : isIdle "" = true := rfl
        simp only [hwalk, bind, Except.bind, walk, hidle, if_true] at h
        cases hway : disk.get? way' with
        | none => simp [hway] at h
        | some entry =>
          cases entry with
          | file bytes => simp [hway] at h
          | directory => simpa [hway] using h
    · simpa [hne, hslash] using h

/-- Names joined to the path are looked up in a directory. -/
def HasDir (disk : Disk) (dir : String) : Prop :=
  ∃ way, disk.walkDir dir = .ok way ∧ disk.get? way = some .directory

theorem hasDir_of_kindAt {disk : Disk} {dir : String} (h : disk.kindAt dir = some .directory) :
    disk.HasDir dir := by
  obtain ⟨way, hfind, hway⟩ := find_of_kindAt h
  exact ⟨way, walkDir_of_find hfind, hway⟩

/-! ### Targets -/

section

variable {disk : Disk} {path : String} {way : List String}

theorem target_of_error {e : FileError} (h : disk.find path = .error e) :
    disk.target path = .error e := by
  simp [target, h, bind, Except.bind]

theorem target_of_directory (h : disk.find path = .ok way)
    (hway : disk.get? way = some .directory) : disk.target path = .error .isADirectory := by
  simp [target, h, hway, bind, Except.bind]

theorem target_of_ne (h : disk.find path = .ok way) (hway : disk.get? way ≠ some .directory) :
    disk.target path = .ok way := by
  simp only [target, h, bind, Except.bind]

theorem target_eq_ok :
    disk.target path = .ok way ↔ disk.find path = .ok way ∧ disk.get? way ≠ some .directory := by
  constructor
  · intro h
    cases hfind : disk.find path with
    | error e => simp [target_of_error hfind] at h
    | ok way' =>
      by_cases hway : disk.get? way' = some .directory
      · simp [target_of_directory hfind hway] at h
      · rw [target_of_ne hfind hway, Except.ok.injEq] at h
        exact ⟨h ▸ rfl, h ▸ hway⟩
  · exact fun h => target_of_ne h.1 h.2

end

/-! ### Lists of writes -/

/-- The disk with files put in it, one after the other. -/
def putAll (disk : Disk) (writes : List (List String × ByteArray)) : Disk :=
  writes.foldl (fun disk write => disk.put write.1 (.file write.2)) disk

theorem putAll_cons (disk : Disk) (write : List String × ByteArray)
    (writes : List (List String × ByteArray)) :
    disk.putAll (write :: writes) = (disk.put write.1 (.file write.2)).putAll writes := rfl

theorem putAll_append (disk : Disk) (writes more : List (List String × ByteArray)) :
    disk.putAll (writes ++ more) = (disk.putAll writes).putAll more :=
  List.foldl_append

theorem putAll_refuses (disk : Disk) (writes : List (List String × ByteArray)) :
    (disk.putAll writes).refuses = disk.refuses := by
  induction writes generalizing disk with
  | nil => rfl
  | cons write writes ih => exact ih _

theorem get?_putAll_of_notMem {disk : Disk} {writes : List (List String × ByteArray)}
    {way : List String} (h : ∀ write ∈ writes, write.1 ≠ way) :
    (disk.putAll writes).get? way = disk.get? way := by
  induction writes generalizing disk with
  | nil => rfl
  | cons write writes ih =>
    rw [List.forall_mem_cons] at h
    rw [putAll_cons, ih h.2, get?_put_of_ne disk _ (Ne.symm h.1)]

/-- Where all writes agree on what a place is to hold, that is what it holds. -/
theorem get?_putAll_of_mem {disk : Disk} {writes : List (List String × ByteArray)}
    {way : List String} {bytes : ByteArray} (hway : isFixed way = false)
    (hmem : (way, bytes) ∈ writes) (hsame : ∀ write ∈ writes, write.1 = way → write.2 = bytes) :
    (disk.putAll writes).get? way = some (.file bytes) := by
  induction writes generalizing disk with
  | nil => simp at hmem
  | cons write writes ih =>
    rw [List.forall_mem_cons] at hsame
    rw [putAll_cons]
    by_cases hlater : ∃ later ∈ writes, later.1 = way
    · obtain ⟨later, hlater, rfl⟩ := hlater
      have hbytes : later = (later.1, bytes) := Prod.ext rfl (hsame.2 later hlater rfl)
      exact ih (hbytes ▸ hlater) hsame.2
    · -- The first write is the last one to the place.
      have hnone : ∀ later ∈ writes, later.1 ≠ way := fun later h heq => hlater ⟨later, h, heq⟩
      rcases List.mem_cons.1 hmem with rfl | hmem
      · rw [get?_putAll_of_notMem hnone, get?_put_self disk _ hway]
      · exact absurd rfl (hnone _ hmem)

theorem isFixed_of_ne {disk : Disk} {way : List String} (h : disk.get? way ≠ some .directory) :
    isFixed way = false := by
  cases hfixed : isFixed way with
  | false => rfl
  | true => exact absurd (by simp [get?, hfixed]) h

/-- A file is put where no directory is, so what is a directory stays the same. -/
theorem get?_putAll_directory {disk : Disk} {writes : List (List String × ByteArray)}
    (h : ∀ write ∈ writes, disk.get? write.1 ≠ some .directory) (way : List String) :
    (disk.putAll writes).get? way = some .directory ↔ disk.get? way = some .directory := by
  induction writes generalizing disk with
  | nil => rfl
  | cons write writes ih =>
    rw [List.forall_mem_cons] at h
    have hput (other : List String) : (disk.put write.1 (.file write.2)).get? other =
        some .directory ↔ disk.get? other = some .directory := by
      by_cases hother : other = write.1
      · subst hother
        rw [get?_put_self disk _ (isFixed_of_ne h.1)]
        simp [h.1]
      · rw [get?_put_of_ne disk _ hother]
    rw [putAll_cons, ih fun later hlater => mt (hput later.1).1 (h.2 later hlater), hput]

/-! ### Single writes -/

/-- What is in a file after the bytes were written to it, if that touches it. -/
def leaves (disk : Disk) (way : List String) (bytes : ByteArray) : Option ByteArray :=
  match disk.refuses way bytes with
  | none => some bytes
  | some refusal => refusal.left

/-- The file that a write puts, if it puts one. -/
def puts (disk : Disk) (path contents : String) : List (List String × ByteArray) :=
  match disk.target path with
  | .error _ => []
  | .ok way => (disk.leaves way contents.toUTF8).toList.map (way, ·)

section

variable {disk later : Disk} {path contents : String}

theorem write_snd (disk : Disk) (path contents : String) :
    (disk.write path contents).2 = disk.putAll (disk.puts path contents) := by
  unfold write puts leaves
  cases disk.target path with
  | error e => rfl
  | ok way =>
    dsimp only
    cases disk.refuses way contents.toUTF8 with
    | none => rfl
    | some refusal =>
      obtain ⟨e, left⟩ := refusal
      cases left <;> rfl

theorem mem_puts {write : List String × ByteArray} : write ∈ disk.puts path contents ↔
    disk.target path = .ok write.1 ∧ disk.leaves write.1 contents.toUTF8 = some write.2 := by
  obtain ⟨way, bytes⟩ := write
  unfold puts
  cases disk.target path with
  | error e => simp
  | ok way' =>
    simp only [List.mem_map, Option.mem_toList, Prod.mk.injEq, Except.ok.injEq]
    constructor
    · rintro ⟨_, hleaves, rfl, rfl⟩
      exact ⟨rfl, hleaves⟩
    · rintro ⟨rfl, hleaves⟩
      exact ⟨bytes, hleaves, rfl, rfl⟩

/-- A write depends on the disk by its target and what is refused there. -/
theorem write_congr (htarget : later.target path = disk.target path)
    (hrefuses : later.refuses = disk.refuses) (contents : String) :
    (later.write path contents).1 = (disk.write path contents).1 ∧
      later.puts path contents = disk.puts path contents := by
  unfold write puts leaves
  rw [htarget, hrefuses]
  cases disk.target path with
  | error e => exact ⟨rfl, rfl⟩
  | ok way =>
    refine ⟨?_, rfl⟩
    dsimp only
    cases disk.refuses way contents.toUTF8 with
    | none => rfl
    | some refusal =>
      obtain ⟨e, left⟩ := refusal
      cases left <;> rfl

/-- Whatever is written to the path, a file is put that holds it. -/
def Accepts (disk : Disk) (path : String) (way : List String) : Prop :=
  disk.target path = .ok way ∧ ∀ bytes, disk.refuses way bytes = none

theorem Accepts.write {way : List String} (h : disk.Accepts path way) (contents : String) :
    (disk.write path contents).1 = .ok () ∧
      disk.puts path contents = [(way, contents.toUTF8)] := by
  simp [Disk.write, puts, leaves, h.1, h.2]

end

/-! ### Writes into one directory -/

/-- On a disk that has all the directories, the ways through them are the same. -/
theorem walk_of_directories {disk later : Disk}
    (hkeep : ∀ way, disk.get? way = some .directory → later.get? way = some .directory)
    {way way' ps : List String} (h : disk.walk way ps = .ok way') :
    later.walk way ps = .ok way' := by
  induction ps generalizing way with
  | nil => exact h
  | cons p ps ih =>
    simp only [walk] at h ⊢
    cases hway : disk.get? way with
    | none => simp [hway] at h
    | some entry =>
      cases entry with
      | file bytes => simp [hway] at h
      | directory =>
        simp only [hway, hkeep way hway] at h ⊢
        by_cases hidle : isIdle p = true
        · rw [if_pos hidle] at h ⊢
          exact ih h
        · by_cases hup : p = ".."
          · rw [if_neg hidle, if_pos hup] at h ⊢
            exact ih h
          · by_cases hlong : maxName < p.utf8ByteSize
            · simp [hidle, hup, hlong] at h
            · rw [if_neg hidle, if_neg hup, if_neg hlong] at h ⊢
              exact ih h

/-- So is the way to a name in a directory. -/
theorem find_of_same_directories {disk later : Disk}
    (hsame : ∀ way, later.get? way = some .directory ↔ disk.get? way = some .directory)
    {dir name : String} {way : List String} (hdir : disk.walkDir dir = .ok way)
    (hway : disk.get? way = some .directory) (hname : IsName name) :
    later.find (join dir name) = disk.find (join dir name) := by
  have hdir' : later.walkDir dir = .ok way := walk_of_directories (fun way => (hsame way).2) hdir
  have hname' : later.walk way [name] = disk.walk way [name] :=
    walk_name_congr (((hsame way).2 hway).trans hway.symm)
  rw [find_join later dir hname, find_join disk dir hname, hdir, hdir']
  exact congrArg (fun walk => Option.elim _ walk .error) hname'

/-- Each write goes where a file can be put under a name in the directory. -/
def Into (disk : Disk) (dir : String) (writes : List (List String × ByteArray)) : Prop :=
  ∀ write ∈ writes, ∃ name, IsName name ∧ disk.target (join dir name) = .ok write.1

section

variable {disk : Disk} {dir name : String} {way : List String}
  {writes : List (List String × ByteArray)}

/-- A name is found in a directory only, and under that name. -/
theorem find_join_eq_ok (hname : IsName name) (h : disk.find (join dir name) = .ok way) :
    ∃ around, disk.walkDir dir = .ok around ∧ disk.get? around = some .directory ∧
      way = around ++ [name] := by
  rw [find_join disk dir hname] at h
  cases hfault : pathFault? (join dir name) with
  | some e => simp [hfault] at h
  | none =>
    cases hdir : disk.walkDir dir with
    | error e => simp [hfault, hdir, bind, Except.bind] at h
    | ok around =>
      simp only [hfault, Option.elim_none, hdir, bind, Except.bind] at h
      obtain ⟨haround, -, rfl⟩ := (walk_name_eq_ok hname).1 h
      exact ⟨around, rfl, haround, rfl⟩

theorem Into.get?_ne (h : disk.Into dir writes) :
    ∀ write ∈ writes, disk.get? write.1 ≠ some .directory := by
  intro write hwrite
  obtain ⟨name, -, htarget⟩ := h write hwrite
  exact (target_eq_ok.1 htarget).2

/-- Writes into a directory leave all targets in it as they are. -/
theorem Into.target_putAll (h : disk.Into dir writes) (hname : IsName name) :
    (disk.putAll writes).target (join dir name) = disk.target (join dir name) := by
  cases writes with
  | nil => rfl
  | cons write writes =>
    obtain ⟨name', hname', htarget⟩ := h write List.mem_cons_self
    obtain ⟨around, hdir, haround, -⟩ := find_join_eq_ok hname' (target_eq_ok.1 htarget).1
    have hsame := get?_putAll_directory h.get?_ne
    have hfind := find_of_same_directories hsame hdir haround hname
    cases hold : disk.find (join dir name) with
    | error e => rw [target_of_error hold, target_of_error (hfind.trans hold)]
    | ok way =>
      by_cases hway : disk.get? way = some .directory
      · rw [target_of_directory hold hway,
          target_of_directory (hfind.trans hold) ((hsame way).2 hway)]
      · rw [target_of_ne hold hway, target_of_ne (hfind.trans hold) (mt (hsame way).1 hway)]

/-- Writes into a directory leave a file as it is that has none of their names. -/
theorem Into.read_putAll {path : String} (h : disk.Into dir writes)
    (hpath : disk.HasDir path) (hname : IsName name)
    (hne : ∀ write ∈ writes, write.1.getLast? ≠ some name) :
    (disk.putAll writes).read (join path name) = disk.read (join path name) := by
  obtain ⟨around, hdir, haround⟩ := hpath
  have hsame := get?_putAll_directory h.get?_ne
  have hfind' := find_of_same_directories hsame hdir haround hname
  unfold read
  rw [hfind']
  cases hway : disk.find (join path name) with
  | error e => rfl
  | ok way =>
    obtain ⟨around', -, -, rfl⟩ := find_join_eq_ok hname hway
    have hget : (disk.putAll writes).get? (around' ++ [name]) = disk.get? (around' ++ [name]) :=
      get?_putAll_of_notMem fun write hwrite heq => hne write hwrite (by simp [heq])
    simp only [bind, Except.bind, hget]

end

end Jack.Disk
