import Jack.Command.Run
import Jack.Proofs.Command.Effects
import Mathlib.Data.List.Nodup
import Mathlib.Data.List.Pairwise

/-!
The order in which units are compiled. Whether a unit fails, and why, does not depend on it, nor
does what a file holds at the end, with one exception: when both listings are asked for, the tokens
of a unit and the tree of one with a `T` more in its name go to the same file, and the last one
stays.
-/

namespace Jack

/-! ### The units of a directory -/

abbrev Session.findUnits (s : Session) (path : String) :
    Except StartError (List String) × Session :=
  (Jack.findUnits path : ExceptT StartError (StateM Session) (List String)) s

/-- Everything on the disk has a name that an entry of a directory can have. -/
def Disk.WellNamed (disk : Disk) : Prop :=
  ∀ entry ∈ disk.entries, ∀ name, entry.1.getLast? = some name → Path.IsName name

theorem Disk.exists_list {disk : Disk} {path : String} (h : disk.kindAt path = some .directory) :
    ∃ names, disk.list path = .ok names ∧
      ∀ name ∈ names, ∃ entry ∈ disk.entries, entry.1.getLast? = some name := by
  obtain ⟨way, hfind, hway⟩ := find_of_kindAt h
  unfold list
  simp only [hfind, bind, Except.bind, hway]
  refine ⟨_, rfl, fun name hname => ?_⟩
  obtain ⟨entry, hentry, hlast⟩ := List.mem_filterMap.1 hname
  refine ⟨entry, hentry, ?_⟩
  split at hlast
  · exact hlast
  · simp at hlast

section

variable {σ ε α β : Type}

theorem exceptT_bind_of_ok {x : ExceptT ε (StateM σ) α} {k : α → ExceptT ε (StateM σ) β} {s s' : σ}
    {a : α} (h : x s = (.ok a, s')) : (x >>= k) s = k a s' := by
  have hbind : (x >>= k) s = StateT.bind x (ExceptT.bindCont k) s := rfl
  rw [hbind, StateT.bind, h]
  rfl

/-- A filter that only looks at the state leaves it as it is. -/
theorem filterMapM_of_pure {f : α → ExceptT ε (StateM σ) (Option β)} {g : α → Option β} {s : σ}
    (h : ∀ a, f a s = (.ok (g a), s)) (xs : List α) :
    (xs.filterMapM f : ExceptT ε (StateM σ) (List β)) s = (.ok (xs.filterMap g), s) := by
  induction xs with
  | nil => rfl
  | cons x xs ih =>
    rw [List.filterMapM_cons, exceptT_bind_of_ok (h x), List.filterMap_cons]
    cases g x with
    | none => exact ih
    | some b => exact exceptT_bind_of_ok ih

end

/-- The unit under a name in a directory, if there is one. -/
def Disk.unit? (disk : Disk) (dir name : String) : Option String :=
  if isSource (Path.join dir name) && disk.kindAt (Path.join dir name) = some .file then
    some (Path.join dir name)
  else none

theorem Session.findUnits_eq {s : Session} {path : String} {names : List String}
    (hdir : s.disk.kindAt path = some .directory) (hlist : s.disk.list path = .ok names) :
    s.findUnits path = (.ok ((sortNames names).filterMap (s.disk.unit? path)), s) := by
  have hkind : (Host.kindAt path : ExceptT StartError (StateM Session) _) s =
      (.ok (some .directory), s) := by
    rw [← hdir]
    rfl
  have hnames : (Host.list path : ExceptT StartError (StateM Session) _) s =
      (.ok (.ok names), s) := by
    rw [← hlist]
    rfl
  rw [findUnits, Jack.findUnits, exceptT_bind_of_ok hkind]
  simp only
  rw [exceptT_bind_of_ok hnames]
  refine filterMapM_of_pure (fun name => ?_) _
  rfl

theorem toOption_eq_some {ε α : Type} {x : Except ε α} {a : α} :
    x.toOption = some a ↔ x = .ok a := by
  cases x <;> simp [Except.toOption]

/-- Names that are listed in order need no sorting. -/
theorem Session.findUnits_of_pairwise {s : Session} {path : String} {names : List String}
    (hdir : s.disk.kindAt path = some .directory)
    (hlist : (s.disk.list path).toOption = some names)
    (horder : names.Pairwise fun a b => (!decide (b < a)) = true) :
    s.findUnits path = (.ok (names.filterMap (s.disk.unit? path)), s) := by
  have hsorted : sortNames names = names := List.mergeSort_of_pairwise horder
  rw [findUnits_eq hdir (toOption_eq_some.1 hlist), hsorted]

theorem Disk.isUnitIn_of_unit? {disk : Disk} {dir name unit : String} (hname : Path.IsName name)
    (h : disk.unit? dir name = some unit) : IsUnitIn dir unit := by
  unfold unit? at h
  split at h
  next hsource =>
    have hext : isSource (Path.join dir name) = true := (Bool.and_eq_true_iff.1 hsource).1
    rw [isSource, decide_eq_true_iff, Path.extension?_join dir hname] at hext
    exact ⟨name, hname, hext, (Option.some.inj h).symm⟩
  next => simp at h

/-- The units of a directory are found, and nothing is changed. -/
theorem Session.exists_findUnits {s : Session} {path : String}
    (hdir : s.disk.kindAt path = some .directory) (hnames : s.disk.WellNamed) :
    ∃ units, s.findUnits path = (.ok units, s) ∧ ∀ unit ∈ units, IsUnitIn path unit := by
  obtain ⟨names, hlist, hentries⟩ := Disk.exists_list hdir
  refine ⟨_, findUnits_eq hdir hlist, fun unit hunit => ?_⟩
  obtain ⟨name, hname, hsome⟩ := List.mem_filterMap.1 hunit
  obtain ⟨entry, hentry, hlast⟩ := hentries name (List.mem_mergeSort.1 hname)
  exact Disk.isUnitIn_of_unit? (hnames entry hentry name hlast) hsome

/-! ### Where outputs meet -/

/-- The places where the tokens of one unit and the tree of another are listed. -/
def Contested (settings : Settings) (disk : Disk) (units way : List String) : Prop :=
  settings.emitTokens = true ∧ settings.emitTree = true ∧
    ∃ u ∈ units, ∃ v ∈ units, Path.stem v = Path.stem u ++ "T" ∧
      disk.target (outputPath settings v ".xml") = .ok way

section

variable {settings : Settings} {disk : Disk} {dir u v x y : String}

/-- Of the suffixes of outputs, only those of the listings can be confused. -/
theorem append_eq_append_iff (stem stem' : String) (hx : x ∈ settings.suffixes)
    (hy : y ∈ settings.suffixes) :
    stem ++ x = stem' ++ y ↔ (stem = stem' ∧ x = y) ∨
      (x = "T.xml" ∧ y = ".xml" ∧ stem' = stem ++ "T") ∨
      (x = ".xml" ∧ y = "T.xml" ∧ stem = stem' ++ "T") := by
  have hlistings (front back : String) :
      front ++ "T.xml" = back ++ ".xml" ↔ back = front ++ "T" := by
    have hsuffix : "T.xml" = "T" ++ ".xml" := by decide
    rw [hsuffix, ← String.append_assoc, String.append_left_inj, eq_comm]
  have htokens (front back : String) : front ++ "T.xml" ≠ back ++ ".vm" :=
    Path.append_ne_append (c := 'l') (d := 'm') (by decide) (by decide) (by decide) front back
  have htree (front back : String) : front ++ ".xml" ≠ back ++ ".vm" :=
    Path.append_ne_append (c := 'l') (d := 'm') (by decide) (by decide) (by decide) front back
  rcases Settings.mem_suffixes.1 hx with ⟨-, rfl⟩ | ⟨-, rfl⟩ | rfl
  · rcases Settings.mem_suffixes.1 hy with ⟨-, rfl⟩ | ⟨-, rfl⟩ | rfl
    · simp
    · simp [hlistings]
    · simp [htokens]
  · rcases Settings.mem_suffixes.1 hy with ⟨-, rfl⟩ | ⟨-, rfl⟩ | rfl
    · simp [eq_comm (b := stem' ++ "T.xml"), hlistings]
    · simp
    · simp [htree]
  · rcases Settings.mem_suffixes.1 hy with ⟨-, rfl⟩ | ⟨-, rfl⟩ | rfl
    · simp [(htokens _ _).symm]
    · simp [(htree _ _).symm]
    · simp

/-- Outputs of units have one path only if they are the same, or if they are listings of units of
which one has a `T` more in its name. -/
theorem outputPath_eq_iff (hu : IsUnitIn dir u) (hv : IsUnitIn dir v) (hx : x ∈ settings.suffixes)
    (hy : y ∈ settings.suffixes) :
    outputPath settings u x = outputPath settings v y ↔ (u = v ∧ x = y) ∨
      (x = "T.xml" ∧ y = ".xml" ∧ Path.stem v = Path.stem u ++ "T") ∨
      (x = ".xml" ∧ y = "T.xml" ∧ Path.stem u = Path.stem v ++ "T") := by
  have hstem : Path.stem u = Path.stem v ↔ u = v := by
    constructor
    · intro heq
      rw [hu.eq_join.2, hv.eq_join.2, heq]
    · exact fun heq => heq ▸ rfl
  rw [hu.outputPath_eq, hv.outputPath_eq, ← hstem, ← append_eq_append_iff _ _ hx hy]
  exact Path.join_right_inj (hu.isName_output hx) (hv.isName_output hy)

theorem outputPaths_nodup (hu : IsUnitIn dir u) :
    (settings.suffixes.map (outputPath settings u)).Nodup := by
  apply List.Nodup.map_on
  · intro x hx y hy heq
    have hne : Path.stem u ≠ Path.stem u ++ "T" := by
      intro hstem
      have hlength := congrArg String.length hstem
      simp at hlength
    rcases (outputPath_eq_iff hu hu hx hy).1 heq with ⟨-, hxy⟩ | ⟨-, -, hstem⟩ | ⟨-, -, hstem⟩
    · exact hxy
    · exact absurd hstem hne
    · exact absurd hstem hne
  · unfold Settings.suffixes
    cases settings.emitTokens <;> cases settings.emitTree <;> decide

/-- A unit has one text for each of its outputs. -/
theorem contents_unique {path contents contents' : String} {notice notice' : Notice}
    (hu : IsUnitIn dir u) (h : .write path contents notice ∈ unitSteps settings disk u)
    (h' : .write path contents' notice' ∈ unitSteps settings disk u) : contents = contents' := by
  unfold unitSteps at h h'
  cases htext : disk.text u with
  | error e => simp [htext, stepsFor] at h
  | ok source =>
    simp only [htext, stepsFor] at h h'
    have hnodup := (outputPaths_nodup hu).sublist (paths_plan settings u source)
    have hdistinct := List.pairwise_filterMap.1 hnodup
    have hsymm : Std.Symm fun step step' : Step =>
        ∀ p, step.path? = some p → ∀ q, step'.path? = some q → p ≠ q :=
      ⟨fun step step' hne p hp q hq => (hne q hq p hp).symm⟩
    by_contra hne
    exact hdistinct.forall h h' (by simp [hne]) path rfl path rfl rfl

/-- Two units write different bytes to one place only if it is contested. -/
theorem bytes_unique {units : List String} {way : List String} {bytes bytes' : ByteArray}
    (hunits : ∀ unit ∈ units, IsUnitIn dir unit) (hfree : ¬ Contested settings disk units way)
    (hu : u ∈ units) (hv : v ∈ units) (h : (way, bytes) ∈ (Effect.ofUnit settings disk u).writes)
    (h' : (way, bytes') ∈ (Effect.ofUnit settings disk v).writes) : bytes = bytes' := by
  obtain ⟨path, contents, notice, hstep, hputs⟩ := Effect.exists_step_of_mem h
  obtain ⟨path', contents', notice', hstep', hputs'⟩ := Effect.exists_step_of_mem h'
  obtain ⟨⟨x, hx, rfl⟩, -⟩ := stepsFor_isFor settings u _ _ hstep
  obtain ⟨⟨y, hy, rfl⟩, -⟩ := stepsFor_isFor settings v _ _ hstep'
  obtain ⟨htarget, hleaves⟩ := Disk.mem_puts.1 hputs
  obtain ⟨htarget', hleaves'⟩ := Disk.mem_puts.1 hputs'
  have hpaths : outputPath settings u x = outputPath settings v y := by
    have hlast := (hunits u hu).getLast?_target hx htarget
    rw [(hunits v hv).getLast?_target hy htarget'] at hlast
    rw [(hunits u hu).outputPath_eq, (hunits v hv).outputPath_eq, Option.some.inj hlast]
  rcases (outputPath_eq_iff (hunits u hu) (hunits v hv) hx hy).1 hpaths with
    ⟨rfl, rfl⟩ | ⟨rfl, rfl, hstem⟩ | ⟨rfl, rfl, hstem⟩
  · rw [contents_unique (hunits u hu) hstep hstep'] at hleaves
    exact Option.some.inj (hleaves.symm.trans hleaves')
  · have htokens : settings.emitTokens = true := by simpa [Settings.mem_suffixes] using hx
    have htree : settings.emitTree = true := by simpa [Settings.mem_suffixes] using hy
    exact absurd ⟨htokens, htree, u, hu, v, hv, hstem, htarget'⟩ hfree
  · have htokens : settings.emitTokens = true := by simpa [Settings.mem_suffixes] using hy
    have htree : settings.emitTree = true := by simpa [Settings.mem_suffixes] using hx
    exact absurd ⟨htokens, htree, v, hv, u, hu, hstem, htarget⟩ hfree

end

/-! ### Orders -/

/-- Writes that agree on a place leave the same there in any order. -/
theorem Disk.get?_putAll_of_perm {disk : Disk} {writes writes' : List (List String × ByteArray)}
    {way : List String} (hperm : writes'.Perm writes)
    (hopen : ∀ write ∈ writes, disk.get? write.1 ≠ some .directory)
    (hagree : ∀ write ∈ writes, ∀ write' ∈ writes, write.1 = way → write'.1 = way →
      write.2 = write'.2) :
    (disk.putAll writes').get? way = (disk.putAll writes).get? way := by
  by_cases hmem : ∃ write ∈ writes, write.1 = way
  · obtain ⟨write, hwrite, rfl⟩ := hmem
    have hfixed := isFixed_of_ne (hopen write hwrite)
    have hall : ∀ other ∈ writes, other.1 = write.1 → other.2 = write.2 :=
      fun other hother heq => hagree other hother write hwrite heq rfl
    rw [get?_putAll_of_mem hfixed hwrite hall, get?_putAll_of_mem hfixed (hperm.mem_iff.2 hwrite)
      fun other hother => hall other (hperm.mem_iff.1 hother)]
  · have hnone : ∀ write ∈ writes, write.1 ≠ way := fun write h heq => hmem ⟨write, h, heq⟩
    rw [get?_putAll_of_notMem hnone,
      get?_putAll_of_notMem fun write hwrite => hnone write (hperm.mem_iff.1 hwrite)]

section

variable {s : Session} {settings : Settings} {path : String} {units order : List String}

/-- A unit fails behind other units as it does alone. -/
theorem Session.compileUnit_after {before : List String} {unit : String}
    (hdir : s.disk.kindAt path = some .directory) (hbefore : ∀ unit ∈ before, IsUnitIn path unit)
    (hunit : IsUnitIn path unit) :
    ((s.compileAll settings before).2.compileUnit settings unit).1 =
      (s.compileUnit settings unit).1 := by
  have hdir' := Disk.hasDir_of_kindAt hdir
  have hdisk : (s.compileAll settings before).2.disk = _ :=
    (compileAll_eq_effects hdir' .nil rfl hbefore).2
  rw [List.nil_append] at hdisk
  rw [(compileUnit_eq_effect hdir' hunit .nil rfl).1]
  exact (compileUnit_eq_effect hdir' hunit (Effect.ofUnits_outputs hbefore) hdisk).1

theorem Session.count_compileAll (hdir : s.disk.kindAt path = some .directory)
    (hunits : ∀ unit ∈ units, IsUnitIn path unit) :
    (s.compileAll settings units).1 =
      units.countP fun unit => (s.compileUnit settings unit).1.isSome := by
  have hdir' := Disk.hasDir_of_kindAt hdir
  rw [(compileAll_eq_effects hdir' .nil rfl hunits).1]
  refine List.countP_congr fun unit hunit => ?_
  rw [(compileUnit_eq_effect hdir' (hunits unit hunit) .nil rfl).1]

theorem Session.get?_compileAll_of_perm {way : List String}
    (hdir : s.disk.kindAt path = some .directory) (hunits : ∀ unit ∈ units, IsUnitIn path unit)
    (hperm : order.Perm units) (hfree : ¬ Contested settings s.disk units way) :
    (s.compileAll settings order).2.disk.get? way =
      (s.compileAll settings units).2.disk.get? way := by
  have horder : ∀ unit ∈ order, IsUnitIn path unit := fun unit hunit =>
    hunits unit (hperm.mem_iff.1 hunit)
  have hdir' := Disk.hasDir_of_kindAt hdir
  rw [(compileAll_eq_effects hdir' .nil rfl horder).2,
    (compileAll_eq_effects hdir' .nil rfl hunits).2, List.nil_append, List.nil_append]
  apply Disk.get?_putAll_of_perm (hperm.flatMap_right _)
  · exact (Effect.ofUnits_outputs hunits).into.get?_ne
  · rintro ⟨way', bytes⟩ hmem ⟨way'', bytes'⟩ hmem' rfl hway
    obtain rfl : way'' = way' := hway
    obtain ⟨u, hu, hmem⟩ := List.mem_flatMap.1 hmem
    obtain ⟨v, hv, hmem'⟩ := List.mem_flatMap.1 hmem'
    exact bytes_unique hunits hfree hu hv hmem hmem'

end

/-- The units of a directory can be compiled in any order. Each of them fails as it does alone, and
each file holds the same at the end, unless the tokens of a unit and the tree of another are listed
in it, which is the only way in which outputs can meet. -/
theorem Session.compileAll_of_perm {s : Session} {path : String} (settings : Settings)
    (hdir : s.disk.kindAt path = some .directory) (hnames : s.disk.WellNamed) :
    ∃ units, s.findUnits path = (.ok units, s) ∧
      (∀ u ∈ units, ∀ v ∈ units, ∀ x ∈ settings.suffixes, ∀ y ∈ settings.suffixes,
        outputPath settings u x = outputPath settings v y ↔ (u = v ∧ x = y) ∨
          (x = "T.xml" ∧ y = ".xml" ∧ Path.stem v = Path.stem u ++ "T") ∨
          (x = ".xml" ∧ y = "T.xml" ∧ Path.stem u = Path.stem v ++ "T")) ∧
      ∀ order : List String, order.Perm units →
        (∀ before unit after, order = before ++ unit :: after →
          ((s.compileAll settings before).2.compileUnit settings unit).1 =
            (s.compileUnit settings unit).1) ∧
        (s.compileAll settings order).1 =
          units.countP (fun unit => (s.compileUnit settings unit).1.isSome) ∧
        ∀ way, ¬ Contested settings s.disk units way →
          (s.compileAll settings order).2.disk.get? way =
            (s.compileAll settings units).2.disk.get? way := by
  obtain ⟨units, hfound, hunits⟩ := exists_findUnits hdir hnames
  refine ⟨units, hfound, ?_, ?_⟩
  · intro u hu v hv x hx y hy
    exact outputPath_eq_iff (hunits u hu) (hunits v hv) hx hy
  · intro order hperm
    have horder : ∀ unit ∈ order, IsUnitIn path unit := fun unit hunit =>
      hunits unit (hperm.mem_iff.1 hunit)
    refine ⟨?_, ?_, ?_⟩
    · intro before unit after hsplit
      have hbefore : ∀ other ∈ before, IsUnitIn path other := fun other hother =>
        horder other (hsplit ▸ List.mem_append_left _ hother)
      exact compileUnit_after hdir hbefore (horder unit (by simp [hsplit]))
    · rw [count_compileAll hdir horder, hperm.countP_eq]
    · exact fun way hfree => get?_compileAll_of_perm hdir hunits hperm hfree

/-- Two units, of which one has a `T` more in its name. -/
def twins : Session :=
  ⟨{ entries := [(["A.jack"], .file "class A \x7b \x7d".toUTF8),
    (["AT.jack"], .file "class AT \x7b \x7d".toUTF8)] }, []⟩

theorem kindAt_twins : twins.disk.kindAt "." = some .directory := by decide +kernel

theorem wellNamed_twins : twins.disk.WellNamed := by
  unfold Disk.WellNamed
  simp only [twins, List.forall_mem_cons, List.getLast?_singleton, Option.some.injEq, forall_eq',
    List.not_mem_nil, false_imp_iff, implies_true, and_true]
  decide

theorem findUnits_twins : twins.findUnits "." = (.ok ["./A.jack", "./AT.jack"], twins) := by
  have hnames : (twins.disk.list ".").toOption = some ["A.jack", "AT.jack"] := by decide +kernel
  have hunits : ["A.jack", "AT.jack"].filterMap (twins.disk.unit? ".") =
      ["./A.jack", "./AT.jack"] := by decide +kernel
  rw [Session.findUnits_of_pairwise kindAt_twins hnames (by decide), hunits]

theorem not_contested_twins {way : List String} (hway : way ≠ ["AT.xml"]) :
    ¬ Contested ⟨true, true, none, 1⟩ twins.disk ["./A.jack", "./AT.jack"] way := by
  have hpath : outputPath ⟨true, true, none, 1⟩ "./AT.jack" ".xml" = "./AT.xml" := by decide +kernel
  have htarget : (twins.disk.target "./AT.xml").toOption = some ["AT.xml"] := by decide +kernel
  rintro ⟨-, -, u, hu, v, hv, hstem, h⟩
  simp only [List.mem_cons, List.not_mem_nil, or_false] at hu hv
  rcases hv with rfl | rfl
  · rcases hu with rfl | rfl <;> exact absurd hstem (by decide +kernel)
  · rw [hpath] at h
    simp only [h, Except.toOption, Option.some.injEq] at htarget
    exact hway htarget

/-- Compiled the other way round, both units have code, and only one file can differ. -/
theorem Session.compileAll_twins :
    let settings : Settings := ⟨true, true, none, 1⟩
    twins.disk.kindAt "." = some .directory ∧ twins.disk.WellNamed ∧
      (twins.compileAll settings ["./AT.jack", "./A.jack"]).1 = 0 ∧
      ∀ way, way ≠ ["AT.xml"] →
        (twins.compileAll settings ["./AT.jack", "./A.jack"]).2.disk.get? way =
          (twins.compileAll settings ["./A.jack", "./AT.jack"]).2.disk.get? way := by
  intro settings
  obtain ⟨units, hfound, -, horder⟩ := compileAll_of_perm settings kindAt_twins wellNamed_twins
  obtain rfl : ["./A.jack", "./AT.jack"] = units := by
    simpa using congrArg Prod.fst (findUnits_twins.symm.trans hfound)
  obtain ⟨-, hcount, hfiles⟩ := horder ["./AT.jack", "./A.jack"] (.swap _ _ _)
  refine ⟨kindAt_twins, wellNamed_twins, ?_, fun way hway => ?_⟩
  · rw [hcount]
    decide +kernel
  · exact hfiles way (not_contested_twins hway)

/-- That file holds the tree of the one unit or the tokens of the other, as the order is. -/
theorem Session.compileAll_twins_contest :
    let settings : Settings := ⟨true, true, none, 1⟩
    let units := ["./A.jack", "./AT.jack"]
    twins.findUnits "." = (.ok units, twins) ∧
      outputPath settings "./A.jack" "T.xml" = outputPath settings "./AT.jack" ".xml" ∧
      ((twins.compileAll settings units).2.disk.text "AT.xml").toOption =
        some ("<class>\n  <keyword> class </keyword>\n  <identifier> AT </identifier>\n" ++
          "  <symbol> \x7b </symbol>\n  <symbol> \x7d </symbol>\n</class>\n") ∧
      ((twins.compileAll settings units.reverse).2.disk.text "AT.xml").toOption =
        some ("<tokens>\n<keyword> class </keyword>\n<identifier> A </identifier>\n" ++
          "<symbol> \x7b </symbol>\n<symbol> \x7d </symbol>\n</tokens>\n") := by
  refine ⟨findUnits_twins, ?_⟩
  decide +kernel

end Jack
