import Jack.Proofs.Command.Effects
import Jack.Proofs.Command.Pool

/-!
Threads on one disk. What is done for units was left to be done by some thread before, and a thread
that takes a unit has all of its effect left. So when the threads have stopped, they have brought
about the effects of the units, in some order and each of them once.
-/

namespace Jack

/-! ### Deeds -/

/-- What can be seen of the compilation of units: a file is put, a failure is reported, and a unit
is put on the list of those that failed. -/
inductive Deed where
  | put (write : List String × ByteArray)
  | report (failure : UnitFailure)
  | record

namespace Deed

def write? : Deed → Option (List String × ByteArray)
  | put write => some write
  | _ => none

def failure? : Deed → Option UnitFailure
  | report failure => some failure
  | _ => none

def isRecord : Deed → Bool
  | record => true
  | _ => false

theorem filterMap_write?_put (writes : List (List String × ByteArray)) :
    (writes.map put).filterMap write? = writes := by
  rw [List.filterMap_map]
  exact List.filterMap_some

theorem filterMap_failure?_put (writes : List (List String × ByteArray)) :
    (writes.map put).filterMap failure? = [] := by
  simp [List.filterMap_map, failure?]

theorem countP_isRecord_put (writes : List (List String × ByteArray)) :
    (writes.map put).countP isRecord = 0 := by
  simp [List.countP_eq_zero, isRecord]

end Deed

namespace Effect

/-- A unit that fails is put on the list when that is reported. -/
def deeds (e : Effect) : List Deed :=
  e.writes.map .put ++ e.failure.elim [] fun failure => [.report failure, .record]

variable (e : Effect)

end Effect

namespace Worker

/-- What the thread has left to do. -/
def owed (disk : Disk) : Worker → List Deed
  | compiling _ left => (left.effect disk).deeds
  | failing _ failure => [.report failure, .record]
  | recording _ => [.record]
  | ready | stopped => []

/-- What the thread asks is for a unit of the directory. -/
def IsIn (settings : Settings) (dir : String) : Worker → Prop
  | compiling job left => IsUnitIn dir job.1 ∧ left.Asks (Request.IsFor settings job.1)
  | _ => True

end Worker

/-- What threads see when the deeds are done. -/
structure Shared.Shows (s : Session) (settings : Settings) (dir : String) (deeds : List Deed)
    (shared : Shared Session) : Prop where
  outputs : Outputs settings s.disk dir (deeds.filterMap Deed.write?)
  disk : shared.host.disk = s.disk.putAll (deeds.filterMap Deed.write?)
  failures : shared.host.failures = s.failures ++ deeds.filterMap Deed.failure?
  failed : shared.failed.length = deeds.countP Deed.isRecord

section

variable {s : Session} {settings : Settings} {dir : String} {units : List String}
  {shared : Shared Session} {worker : Worker} {p : Progress Session} {deeds : List Deed}

theorem Shared.Shows.append {shared' : Shared Session} {more : List Deed}
    (h : shared.Shows s settings dir deeds)
    (houtputs : Outputs settings s.disk dir (more.filterMap Deed.write?))
    (hdisk : shared'.host.disk = shared.host.disk.putAll (more.filterMap Deed.write?))
    (hfailures : shared'.host.failures = shared.host.failures ++ more.filterMap Deed.failure?)
    (hfailed : shared'.failed.length = shared.failed.length + more.countP Deed.isRecord) :
    shared'.Shows s settings dir (deeds ++ more) where
  outputs := by
    rw [List.filterMap_append]
    exact h.outputs.append houtputs
  disk := by rw [hdisk, h.disk, List.filterMap_append, Disk.putAll_append]
  failures := by rw [hfailures, h.failures, List.filterMap_append, List.append_assoc]
  failed := by rw [hfailed, h.failed, List.countP_append]

/-- What a step does was left to be done, or is so for the unit that is taken. -/
theorem Worker.step_shows (hdir : s.disk.HasDir dir) (hunits : ∀ unit ∈ units, IsUnitIn dir unit)
    (h : worker.step settings units shared = p) (hworker : worker.IsIn settings dir)
    (hshared : shared.Shows s settings dir deeds) :
    p.worker.IsIn settings dir ∧ ∃ more taken,
      p.shared.Shows s settings dir (deeds ++ more) ∧
        units.take p.shared.next = units.take shared.next ++ taken ∧
        more ++ p.worker.owed s.disk = worker.owed s.disk ++
          taken.flatMap fun unit => (Effect.ofUnit settings s.disk unit).deeds := by
  subst h
  -- A step without deeds that can be seen.
  have hsame {shared' : Shared Session} (hhost : shared'.host = shared.host)
      (hfailed : shared'.failed = shared.failed) :
      shared'.Shows s settings dir (deeds ++ []) :=
    hshared.append .nil (by rw [hhost]; rfl) (by simp [hhost]) (by simp [hfailed])
  fun_cases step settings units shared worker with
  | case1 path hpath =>
    have hunit := hunits path (List.mem_of_getElem? hpath)
    refine ⟨⟨hunit, Script.asks_compileUnit settings path⟩, [], [path], hsame rfl rfl, ?_, ?_⟩
    · simp [Shared.take, List.take_add_one, hpath]
    · simp [owed, Script.effect_compileUnit]
  | case2 hnone =>
    exact ⟨trivial, [], [], hsame rfl rfl, by simp [Shared.take, List.take_add_one, hnone], rfl⟩
  | case3 job request next answer host hanswer =>
    obtain ⟨hunit, hasks⟩ := hworker
    cases hasks with
    | ask hrequest hnext =>
      obtain ⟨s', heq, hdisk, hfailures, hputs⟩ :=
        Session.answer_eq hdir hunit hshared.outputs hshared.disk hrequest
      obtain ⟨rfl, rfl⟩ : s.disk.answer request = answer ∧ s' = host :=
        Prod.mk.inj (heq.symm.trans hanswer)
      rw [Disk.putAll_append, ← hshared.disk] at hdisk
      refine ⟨⟨hunit, hnext _⟩, (s.disk.putsFor request).map .put, [],
        hshared.append ?_ ?_ ?_ ?_, by simp, by simp [owed, Effect.deeds, Script.effect]⟩
      · rwa [Deed.filterMap_write?_put]
      · rwa [Deed.filterMap_write?_put]
      · rwa [Deed.filterMap_failure?_put, List.append_nil]
      · rw [Deed.countP_isRecord_put]
        rfl
  | case4 job | case5 job failure =>
    exact ⟨trivial, [], [], hsame rfl rfl, by simp, by simp [owed, Script.effect, Effect.deeds]⟩
  | case6 job failure host hreport =>
    obtain rfl : (⟨shared.host.disk, .failed failure :: shared.host.notices⟩ : Session) = host :=
      congrArg Prod.snd hreport
    exact ⟨trivial, [.report failure], [], hshared.append .nil rfl (Session.failures_cons ..) rfl,
      by simp, rfl⟩
  | case7 job =>
    exact ⟨trivial, [.record], [], hshared.append .nil rfl (List.append_nil _).symm
      (by simp [Deed.isRecord]), by simp, rfl⟩
  | case8 => exact ⟨trivial, [], [], hsame rfl rfl, by simp, rfl⟩

end

/-! ### Runs -/

namespace Pool

/-- What is done, and what the threads have left to do, is what there is to do for the units that
were taken. -/
structure Tracks (s : Session) (settings : Settings) (dir : String) (units : List String)
    (pool : Pool Session) (deeds : List Deed) : Prop where
  shared : pool.shared.Shows s settings dir deeds
  workers : ∀ worker ∈ pool.workers, worker.IsIn settings dir
  perm : (deeds ++ pool.workers.flatMap (Worker.owed s.disk)).Perm
    ((units.take pool.shared.next).flatMap fun unit => (Effect.ofUnit settings s.disk unit).deeds)

variable {s : Session} {settings : Settings} {dir : String} {units : List String}
  {pool pool' : Pool Session} {deeds : List Deed} {done : List Compilation} {moves : List Move}

section

variable (hdir : s.disk.HasDir dir) (hunits : ∀ unit ∈ units, IsUnitIn dir unit)

include hdir hunits

theorem Tracks.move {m : Move} (h : pool.Tracks s settings dir units deeds)
    (hmove : pool.move settings units m = some (pool', done)) :
    ∃ more, pool'.Tracks s settings dir units (deeds ++ more) := by
  have hworking := h.workers
  have hperm := h.perm
  obtain ⟨-, hshared, hworkers⟩ | ⟨before, worker, after, p, hworkers, hstep, rfl, -⟩ :=
    move_cases hmove
  · refine ⟨[], ?_, ?_, ?_⟩
    · rw [List.append_nil, hshared]
      exact h.shared
    · have hready : Worker.IsIn settings dir .ready := trivial
      simpa [hworkers, or_imp, forall_and, hready] using hworking
    · simpa [hshared, hworkers, Worker.owed] using hperm
  · simp only [hworkers, List.forall_mem_append, List.forall_mem_cons] at hworking
    obtain ⟨hbefore, hworker, hafter⟩ := hworking
    obtain ⟨hnext, more, taken, hshared, htaken, howed⟩ :=
      Worker.step_shows hdir hunits hstep hworker h.shared
    refine ⟨more, hshared, ?_, ?_⟩
    · exact List.forall_mem_append.2 ⟨hbefore, List.forall_mem_cons.2 ⟨hnext, hafter⟩⟩
    · -- What one thread has left changes between the others, so both sides are counted.
      classical
      rw [hworkers, List.perm_iff_count] at hperm
      rw [List.perm_iff_count]
      intro deed
      have := hperm deed
      have := congrArg (List.count deed) howed
      simp only [htaken, List.flatMap_append, List.flatMap_cons, List.count_append] at *
      omega

theorem Tracks.run (h : pool.Tracks s settings dir units deeds)
    (hrun : pool.run settings units moves = some (pool', done)) :
    ∃ more, pool'.Tracks s settings dir units (deeds ++ more) := by
  induction moves generalizing pool deeds done with
  | nil =>
    obtain ⟨rfl, -⟩ : pool = pool' ∧ [] = done := by simpa [Pool.run] using hrun
    exact ⟨[], by rwa [List.append_nil]⟩
  | cons m moves ih =>
    obtain ⟨⟨pool₁, done₁⟩, hmove, hrun⟩ := Option.bind_eq_some_iff.1 hrun
    obtain ⟨⟨pool₂, done₂⟩, hmoves, heq⟩ := Option.bind_eq_some_iff.1 hrun
    obtain ⟨rfl, -⟩ : pool₂ = pool' ∧ done₁ ++ done₂ = done := by simpa using heq
    obtain ⟨more, htracks⟩ := h.move hdir hunits hmove
    obtain ⟨rest, htracks'⟩ := ih htracks hmoves
    exact ⟨more ++ rest, by rwa [← List.append_assoc]⟩

end

end Pool

end Jack
