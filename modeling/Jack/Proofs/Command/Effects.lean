import Jack.Proofs.Command.Plans
import Jack.Proofs.Command.Scripts
import Jack.Proofs.Command.Writes

/-!
What the compilation of units does to a disk. For a unit its source is read and its outputs are
written, and names of outputs are no names of sources. So a unit reads the same, puts the same files
and fails for the same reason, whatever is written for other units of the directory meanwhile.
-/

namespace Jack

/-- The files that are put, and why nothing more is done. -/
structure Effect where
  writes : List (List String × ByteArray)
  failure : Option UnitFailure

/-! ### Scripts on a disk -/

def Disk.answer (disk : Disk) (request : Request) : request.Answer :=
  ((request.answer : StateM Session _) ⟨disk, []⟩).1

def Disk.putsFor (disk : Disk) : Request → List (List String × ByteArray)
  | .write path contents => disk.puts path contents
  | _ => []

/-- The effect of a script, with answers as if all its requests came first. -/
def Script.effect (disk : Disk) : Script (Option UnitFailure) → Effect
  | done failure => ⟨[], failure⟩
  | ask request next =>
    let rest := (next (disk.answer request)).effect disk
    ⟨disk.putsFor request ++ rest.writes, rest.failure⟩

def Effect.ofSteps (disk : Disk) : List Step → Effect
  | [] => ⟨[], none⟩
  | .report _ :: steps => ofSteps disk steps
  | .write path contents _ :: steps =>
    match (disk.write path contents).1 with
    | .ok () =>
      let rest := ofSteps disk steps
      ⟨disk.puts path contents ++ rest.writes, rest.failure⟩
    | .error e => ⟨disk.puts path contents, some (.file path e)⟩
  | .fail failure :: _ => ⟨[], some failure⟩

theorem Script.effect_execute (disk : Disk) (steps : List Step) :
    (execute steps : Script _).effect disk = Effect.ofSteps disk steps := by
  induction steps with
  | nil => rfl
  | cons step steps ih =>
    cases step with
    | report notice => exact ih
    | fail failure => rfl
    | write path contents notice =>
      have hanswer : disk.answer (.write path contents) = (disk.write path contents).1 := rfl
      rw [Effect.ofSteps, ← ih]
      change (Script.ask (.write path contents) _).effect disk = _
      rw [Script.effect, hanswer]
      cases (disk.write path contents).1 with
      | ok u => rfl
      | error e => exact congrArg (Effect.mk · _) (List.append_nil _)

/-- A file that is put is that of a step. -/
theorem Effect.exists_step_of_mem {disk : Disk} {steps : List Step}
    {write : List String × ByteArray} (h : write ∈ (ofSteps disk steps).writes) :
    ∃ path contents notice, .write path contents notice ∈ steps ∧
      write ∈ disk.puts path contents := by
  induction steps with
  | nil => simp [ofSteps] at h
  | cons step steps ih =>
    have htail (h : write ∈ (ofSteps disk steps).writes) : ∃ path contents notice,
        .write path contents notice ∈ step :: steps ∧ write ∈ disk.puts path contents := by
      obtain ⟨path, contents, notice, hmem, hputs⟩ := ih h
      exact ⟨path, contents, notice, List.mem_cons_of_mem _ hmem, hputs⟩
    cases step with
    | report notice => exact htail h
    | fail failure => simp [ofSteps] at h
    | write path contents notice =>
      rw [ofSteps] at h
      cases hwrite : (disk.write path contents).1 with
      | error e =>
        simp only [hwrite] at h
        exact ⟨path, contents, notice, List.mem_cons_self, h⟩
      | ok u =>
        simp only [hwrite, List.mem_append] at h
        rcases h with h | h
        · exact ⟨path, contents, notice, List.mem_cons_self, h⟩
        · exact htail h

/-! ### The effect of a unit -/

def decodeText (bytes : ByteArray) : Except FileError String :=
  match String.fromUTF8? bytes with
  | some text => .ok text
  | none => .error .notText

/-- The file as text. -/
def Disk.text (disk : Disk) (path : String) : Except FileError String :=
  disk.read path >>= decodeText

/-- The steps for a unit with the source. They are none but a failure if it cannot be read. -/
def stepsFor (settings : Settings) (unit : String) : Except FileError String → List Step
  | .error e => [.fail (.file unit e)]
  | .ok source => plan settings unit source

theorem Script.compileUnit_eq_ask (settings : Settings) (unit : String) :
    (compileUnit settings unit : Script _) = .ask (.read unit) fun contents =>
      execute (stepsFor settings unit (contents >>= decodeText)) := by
  refine congrArg (Script.ask (.read unit)) (funext fun contents => ?_)
  cases contents with
  | error e => rfl
  | ok bytes =>
    simp only [Script.bind, bind, Except.bind, decodeText]
    cases String.fromUTF8? bytes <;> rfl

def unitSteps (settings : Settings) (disk : Disk) (unit : String) : List Step :=
  stepsFor settings unit (disk.text unit)

def Effect.ofUnit (settings : Settings) (disk : Disk) (unit : String) : Effect :=
  ofSteps disk (unitSteps settings disk unit)

theorem Script.effect_compileUnit (settings : Settings) (disk : Disk) (unit : String) :
    (compileUnit settings unit : Script _).effect disk = Effect.ofUnit settings disk unit := by
  rw [compileUnit_eq_ask, Effect.ofUnit, ← effect_execute]
  rfl

/-- The writes are of outputs of units in the directory. -/
def Outputs (settings : Settings) (disk : Disk) (dir : String)
    (writes : List (List String × ByteArray)) : Prop :=
  ∀ write ∈ writes, ∃ unit suffix, IsUnitIn dir unit ∧ suffix ∈ settings.suffixes ∧
    disk.target (outputPath settings unit suffix) = .ok write.1

section

variable {settings : Settings} {disk : Disk} {dir unit : String}
  {writes : List (List String × ByteArray)}

theorem stepsFor_isFor (settings : Settings) (unit : String) (source : Except FileError String) :
    ∀ step ∈ stepsFor settings unit source, step.IsFor settings unit := by
  cases source with
  | error e => exact List.forall_mem_singleton.2 trivial
  | ok source => exact plan_isFor settings unit source

theorem Outputs.puts {suffix : String} (hunit : IsUnitIn dir unit)
    (hsuffix : suffix ∈ settings.suffixes) (contents : String) :
    Outputs settings disk dir (disk.puts (outputPath settings unit suffix) contents) :=
  fun _ hmem => ⟨unit, suffix, hunit, hsuffix, (Disk.mem_puts.1 hmem).1⟩

theorem Effect.ofUnit_outputs (hunit : IsUnitIn dir unit) :
    Outputs settings disk dir (ofUnit settings disk unit).writes := by
  intro write hmem
  obtain ⟨path, contents, notice, hstep, hputs⟩ := exists_step_of_mem hmem
  obtain ⟨⟨suffix, hsuffix, rfl⟩, -⟩ := stepsFor_isFor settings unit _ _ hstep
  exact Outputs.puts hunit hsuffix contents write hputs

theorem Effect.ofUnits_outputs {units : List String} (hunits : ∀ unit ∈ units, IsUnitIn dir unit) :
    Outputs settings disk dir (units.flatMap fun unit => (ofUnit settings disk unit).writes) := by
  intro write hmem
  obtain ⟨unit, hunit, hmem⟩ := List.mem_flatMap.1 hmem
  exact ofUnit_outputs (hunits unit hunit) write hmem

/-- An output is put under its name. -/
theorem IsUnitIn.getLast?_target {suffix : String} {way : List String} (hunit : IsUnitIn dir unit)
    (hsuffix : suffix ∈ settings.suffixes)
    (h : disk.target (outputPath settings unit suffix) = .ok way) :
    way.getLast? = some (Path.stem unit ++ suffix) := by
  rw [hunit.outputPath_eq] at h
  obtain ⟨hfind, -⟩ := Disk.target_eq_ok.1 h
  obtain ⟨around, -, -, rfl⟩ := Disk.find_join_eq_ok (hunit.isName_output hsuffix) hfind
  simp

theorem Outputs.nil : Outputs settings disk dir [] := by
  simp [Outputs]

theorem Outputs.append {more : List (List String × ByteArray)}
    (h : Outputs settings disk dir writes) (h' : Outputs settings disk dir more) :
    Outputs settings disk dir (writes ++ more) := by
  intro write hmem
  rcases List.mem_append.1 hmem with hmem | hmem
  · exact h write hmem
  · exact h' write hmem

theorem Outputs.into (h : Outputs settings disk dir writes) :
    disk.Into (settings.outputDir dir) writes := by
  intro write hmem
  obtain ⟨unit, suffix, hunit, hsuffix, htarget⟩ := h write hmem
  rw [hunit.outputPath_eq] at htarget
  exact ⟨_, hunit.isName_output hsuffix, htarget⟩

/-- Outputs of units leave the sources as they are. -/
theorem Outputs.read_putAll (h : Outputs settings disk dir writes)
    (hdir : disk.HasDir dir) (hunit : IsUnitIn dir unit) :
    (disk.putAll writes).read unit = disk.read unit := by
  obtain ⟨hname, heq⟩ := hunit.eq_join
  have hne : ∀ write ∈ writes, write.1.getLast? ≠ some (Path.stem unit ++ ".jack") := by
    intro write hmem
    obtain ⟨other, suffix, hother, hsuffix, htarget⟩ := h write hmem
    rw [hother.getLast?_target hsuffix htarget]
    exact fun heq => append_ne_source _ _ hsuffix (Option.some.inj heq)
  have hread := h.into.read_putAll hdir hname hne
  rwa [← heq] at hread

/-- And they leave the outputs where they are. -/
theorem Outputs.target_putAll (h : Outputs settings disk dir writes) (hunit : IsUnitIn dir unit)
    {suffix : String} (hsuffix : suffix ∈ settings.suffixes) :
    (disk.putAll writes).target (outputPath settings unit suffix) =
      disk.target (outputPath settings unit suffix) := by
  rw [hunit.outputPath_eq]
  exact h.into.target_putAll (hunit.isName_output hsuffix)

end

/-! ### What is asked for a unit -/

/-- To read the source, to write the outputs, and to report what is no failure. -/
def Request.IsFor (settings : Settings) (unit : String) : Request → Prop
  | read path => path = unit
  | write path _ => ∃ suffix ∈ settings.suffixes, path = outputPath settings unit suffix
  | report notice => notice.failure? = none
  | _ => False

/-- Whatever the answers, all requests of the script are such. -/
inductive Script.Asks {α : Type} (P : Request → Prop) : Script α → Prop
  | done (value : α) : Asks P (done value)
  | ask {request : Request} {next : request.Answer → Script α} (h : P request)
    (hnext : ∀ answer, Asks P (next answer)) : Asks P (ask request next)

theorem Script.asks_execute {settings : Settings} {unit : String} {steps : List Step}
    (h : ∀ step ∈ steps, step.IsFor settings unit) :
    (execute steps : Script _).Asks (Request.IsFor settings unit) := by
  induction steps with
  | nil => exact .done none
  | cons step steps ih =>
    rw [List.forall_mem_cons] at h
    have hrest := ih h.2
    cases step with
    | report notice => exact .ask h.1 fun _ => hrest
    | fail failure => exact .done (some failure)
    | write path contents notice =>
      refine .ask h.1.1 fun answer => ?_
      cases answer with
      | ok u => exact .ask h.1.2 fun _ => hrest
      | error e => exact .done _

theorem Script.asks_compileUnit (settings : Settings) (unit : String) :
    (compileUnit settings unit : Script _).Asks (Request.IsFor settings unit) := by
  rw [compileUnit_eq_ask]
  exact .ask rfl fun _ => asks_execute (stepsFor_isFor settings unit _)

/-! ### Sessions -/

namespace Session

abbrev compileUnit (s : Session) (settings : Settings) (path : String) :
    Option UnitFailure × Session :=
  (Jack.compileUnit settings path : StateM Session (Option UnitFailure)) s

abbrev compileAll (s : Session) (settings : Settings) (paths : List String) : Nat × Session :=
  (Jack.compileAll settings paths : StateM Session Nat) s

variable {settings : Settings} {disk : Disk} {dir unit : String} {s : Session}
  {done : List (List String × ByteArray)}

section

variable (hdir : disk.HasDir dir) (hunit : IsUnitIn dir unit)
  (hdone : Outputs settings disk dir done) (hs : s.disk = disk.putAll done)

include hdir hunit hdone hs

/-- Behind outputs of units, what is asked for a unit is answered as without them. -/
theorem answer_eq {request : Request} (h : request.IsFor settings unit) :
    ∃ s', (request.answer : StateM Session _) s = (disk.answer request, s') ∧
      s'.disk = disk.putAll (done ++ disk.putsFor request) ∧ s'.failures = s.failures ∧
      Outputs settings disk dir (disk.putsFor request) := by
  have hsame : s.disk = disk.putAll (done ++ []) := by rwa [List.append_nil]
  cases request with
  | read path =>
    obtain rfl : path = unit := h
    have hread : s.disk.read path = disk.read path := by rw [hs, hdone.read_putAll hdir hunit]
    exact ⟨s, congrArg (·, s) hread, hsame, rfl, .nil⟩
  | report notice =>
    refine ⟨⟨s.disk, notice :: s.notices⟩, rfl, hsame, ?_, .nil⟩
    have hnotice : notice.failure? = none := h
    rw [failures_cons, hnotice]
    exact List.append_nil _
  | write path contents =>
    obtain ⟨suffix, hsuffix, rfl⟩ := h
    have htarget : s.disk.target (outputPath settings unit suffix) =
        disk.target (outputPath settings unit suffix) := by
      rw [hs, hdone.target_putAll hunit hsuffix]
    have hrefuses : s.disk.refuses = disk.refuses := by rw [hs, Disk.putAll_refuses]
    obtain ⟨hresult, hputs⟩ := Disk.write_congr htarget hrefuses contents
    refine ⟨{ s with disk := (s.disk.write _ contents).2 }, congrArg (·, _) hresult, ?_, rfl,
      .puts hunit hsuffix contents⟩
    rw [Disk.write_snd, hputs, hs, ← Disk.putAll_append]
    rfl
  | kindAt _ | makeDir _ | list _ | elapsed => exact h.elim

/-- And so a script for a unit has the effect that it has alone. -/
theorem run_eq_effect {script : Script (Option UnitFailure)}
    (h : script.Asks (Request.IsFor settings unit)) :
    ∃ s', (script.run : StateM Session _) s = ((script.effect disk).failure, s') ∧
      s'.disk = disk.putAll (done ++ (script.effect disk).writes) := by
  induction h generalizing s done with
  | done value => exact ⟨s, rfl, by rwa [Script.effect, List.append_nil]⟩
  | @ask request next hrequest _ ih =>
    obtain ⟨s₁, hanswer, hdisk, -, houtputs⟩ := answer_eq hdir hunit hdone hs hrequest
    obtain ⟨s₂, hrun, hdisk'⟩ := ih (disk.answer request) (hdone.append houtputs) hdisk
    refine ⟨s₂, ?_, ?_⟩
    · simp only [Script.run, bind, StateT.bind, hanswer]
      exact hrun
    · rw [hdisk', List.append_assoc]
      rfl

/-- Whatever outputs of units were written before, a unit has the effect that it has alone. -/
theorem compileUnit_eq_effect :
    (s.compileUnit settings unit).1 = (Effect.ofUnit settings disk unit).failure ∧
      (s.compileUnit settings unit).2.disk =
        disk.putAll (done ++ (Effect.ofUnit settings disk unit).writes) := by
  obtain ⟨s', hrun, hdisk⟩ :=
    run_eq_effect hdir hunit hdone hs (Script.asks_compileUnit settings unit)
  rw [Script.run_compileUnit, Script.effect_compileUnit] at hrun
  rw [Script.effect_compileUnit] at hdisk
  rw [compileUnit, hrun]
  exact ⟨rfl, hdisk⟩

end

theorem compileAll_cons_of_none {units : List String} {s' : Session}
    (h : s.compileUnit settings unit = (none, s')) :
    s.compileAll settings (unit :: units) = s'.compileAll settings units := by
  rw [compileAll, Jack.compileAll]
  simp only [bind, StateT.bind, h]

theorem compileAll_cons_of_some {units : List String} {s' : Session} {failure : UnitFailure}
    (h : s.compileUnit settings unit = (some failure, s')) :
    s.compileAll settings (unit :: units) =
      Prod.map (· + 1) id
        (compileAll { s' with notices := .failed failure :: s'.notices } settings units) := by
  rw [compileAll, Jack.compileAll]
  simp only [bind, StateT.bind, h]
  rfl

/-- So do any units one after the other. -/
theorem compileAll_eq_effects {units : List String} (hdir : disk.HasDir dir)
    (hdone : Outputs settings disk dir done) (hs : s.disk = disk.putAll done)
    (hunits : ∀ unit ∈ units, IsUnitIn dir unit) :
    (s.compileAll settings units).1 =
        units.countP (fun unit => (Effect.ofUnit settings disk unit).failure.isSome) ∧
      (s.compileAll settings units).2.disk = disk.putAll
        (done ++ units.flatMap fun unit => (Effect.ofUnit settings disk unit).writes) := by
  induction units generalizing s done with
  | nil => exact ⟨rfl, by rwa [List.flatMap_nil, List.append_nil]⟩
  | cons unit units ih =>
    rw [List.forall_mem_cons] at hunits
    obtain ⟨hfailure, hdisk⟩ := compileUnit_eq_effect hdir hunits.1 hdone hs
    have hdone' := hdone.append (Effect.ofUnit_outputs hunits.1)
    rw [List.countP_cons, List.flatMap_cons, ← List.append_assoc, ← hfailure]
    cases hunit : s.compileUnit settings unit with
    | mk failure s' =>
      rw [hunit] at hdisk
      cases failure with
      | none =>
        rw [compileAll_cons_of_none hunit]
        simpa using ih hdone' hdisk hunits.2
      | some failure =>
        rw [compileAll_cons_of_some hunit]
        obtain ⟨hcount, hdisk'⟩ :=
          ih (s := { s' with notices := .failed failure :: s'.notices }) hdone' hdisk hunits.2
        exact ⟨by simp [hcount], hdisk'⟩

end Session

/-! ### Effects of plans -/

/-- What a unit is compiled to: its code, or why it has none. -/
def Disk.compile (disk : Disk) (unit : String) : Except UnitFailure (List Instr) :=
  match disk.text unit with
  | .error e => .error (.file unit e)
  | .ok source => (compileSource unit source).mapError .diagnostic

def Disk.failure? (disk : Disk) (unit : String) : Option UnitFailure :=
  match disk.compile unit with
  | .ok _ => none
  | .error failure => some failure

namespace Effect

variable {settings : Settings} {disk : Disk} {unit : String} {steps more : List Step}

end Effect

end Jack
