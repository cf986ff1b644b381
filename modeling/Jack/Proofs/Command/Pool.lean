import Jack.Command.Disk
import Jack.Proofs.Command.Scripts
import Mathlib.Data.List.Basic

/-!
Units compiled by several threads. A thread takes the number of the next unit, compiles the unit,
puts it on the list of those that failed if it did, and stops when there is no next one. The threads
share the number, the list and the host, and go on in any order. However they do, each unit is
compiled once, and the list is as long as there were failures.
-/

namespace Jack

/-! ### Threads -/

/-- A unit and its number. -/
abbrev Job : Type := String × Nat

/-- What a thread is at. -/
inductive Worker where
  | ready
  | compiling (job : Job) (left : Script (Option UnitFailure))
  /-- A unit has failed, and that is not reported yet. -/
  | failing (job : Job) (failure : UnitFailure)
  /-- The failure is reported, and the unit not on the list yet. -/
  | recording (job : Job)
  | stopped

instance : (worker : Worker) → Decidable (worker = .stopped)
  | .stopped => .isTrue rfl
  | .ready | .compiling _ _ | .failing _ _ | .recording _ => .isFalse Worker.noConfusion

/-- What all threads see. -/
structure Shared (σ : Type) where
  host : σ
  /-- The number of the next unit. Past the last one, it goes on. -/
  next : Nat
  failed : List String

/-- A unit that has been compiled, and why it failed if it did. -/
structure Compilation where
  job : Job
  failure? : Option UnitFailure

/-- The compilation can end so, given the right answers. -/
def Compilation.Possible (settings : Settings) (c : Compilation) : Prop :=
  (compileUnit settings c.job.1 : Script _).Leads (.done c.failure?)

/-- The units that failed. -/
def failures (done : List Compilation) : List String :=
  (done.filter (·.failure?.isSome)).map (·.job.1)

theorem failures_append (done more : List Compilation) :
    failures (done ++ more) = failures done ++ failures more := by
  simp [failures]

def Shared.take {σ : Type} (shared : Shared σ) : Shared σ :=
  { shared with next := shared.next + 1 }

/-- What a step of a thread leads to. -/
structure Progress (σ : Type) where
  shared : Shared σ
  worker : Worker
  /-- The unit that the thread is through with, if there is one. -/
  done : List Compilation

namespace Worker

section

variable {σ : Type} [Host (StateM σ)] (settings : Settings) (units : List String)

/-- A step of a thread: it touches one thing that is shared, once. -/
def step (shared : Shared σ) : Worker → Progress σ
  | ready =>
    match units[shared.next]? with
    | some path => ⟨shared.take, compiling (path, shared.next) (compileUnit settings path), []⟩
    | none => ⟨shared.take, stopped, []⟩
  | compiling job (.ask request next) =>
    let (answer, host) := (request.answer : StateM σ _) shared.host
    ⟨{ shared with host }, compiling job (next answer), []⟩
  | compiling job (.done none) => ⟨shared, ready, [⟨job, none⟩]⟩
  | compiling job (.done (some failure)) => ⟨shared, failing job failure, [⟨job, some failure⟩]⟩
  | failing job failure =>
    let ((), host) := (Host.report (.failed failure) : StateM σ Unit) shared.host
    ⟨{ shared with host }, recording job, []⟩
  | recording job => ⟨{ shared with failed := shared.failed ++ [job.1] }, ready, []⟩
  | stopped => ⟨shared, stopped, []⟩

end

/-- The unit that the thread compiles. -/
def jobs : Worker → List Job
  | compiling job _ => [job]
  | _ => []

/-- The unit that the thread has yet to put on the list. -/
def unrecorded : Worker → List String
  | failing job _ | recording job => [job.1]
  | _ => []

/-- What is left to do for a unit is what some answers have left of its compilation. -/
def Possible (settings : Settings) : Worker → Prop
  | compiling job left => (compileUnit settings job.1 : Script _).Leads left
  | _ => True

variable {σ : Type} [Host (StateM σ)] {settings : Settings} {units : List String}
  {shared : Shared σ} {worker : Worker} {p : Progress σ}

/-- A unit is taken once and, from then on, with the thread until that is through with it. -/
theorem step_jobs (h : worker.step settings units shared = p) :
    (units.zipIdx.take p.shared.next ++ worker.jobs).Perm
      (units.zipIdx.take shared.next ++ (p.worker.jobs ++ p.done.map Compilation.job)) := by
  subst h
  fun_cases step settings units shared worker with
  | case1 path hpath => simp [jobs, Shared.take, List.take_add_one, hpath]
  | case2 hnone => simp [jobs, Shared.take, List.take_add_one, hnone]
  | case3 | case4 | case5 | case6 | case7 | case8 => simp [jobs]

/-- A unit that fails is from then on with the thread or on the list. -/
theorem step_failed (h : worker.step settings units shared = p) :
    p.shared.failed ++ p.worker.unrecorded =
      shared.failed ++ (worker.unrecorded ++ failures p.done) := by
  subst h
  fun_cases step settings units shared worker <;> simp [unrecorded, failures, Shared.take]

theorem step_next (h : worker.step settings units shared = p) : shared.next ≤ p.shared.next := by
  subst h
  fun_cases step settings units shared worker <;> simp [Shared.take]

theorem step_stopped (h : worker.step settings units shared = p) (hstopped : p.worker = .stopped) :
    worker = .stopped ∨ units.length ≤ shared.next := by
  subst h
  revert hstopped
  fun_cases step settings units shared worker <;> simp_all

theorem step_possible (h : worker.step settings units shared = p)
    (hworker : worker.Possible settings) :
    p.worker.Possible settings ∧ ∀ c ∈ p.done, c.Possible settings := by
  subst h
  fun_cases step settings units shared worker with
  | case1 path hpath => exact ⟨.refl, by simp⟩
  | case3 job request next answer host hanswer => exact ⟨.answer _ hworker, by simp⟩
  | case4 | case5 => exact ⟨trivial, List.forall_mem_singleton.2 hworker⟩
  | case2 | case6 | case7 | case8 => exact ⟨trivial, by simp⟩

end Worker

/-! ### Runs -/

/-- The threads, and how many of them are yet to be started. -/
structure Pool (σ : Type) where
  shared : Shared σ
  toSpawn : Nat
  workers : List Worker

/-- What happens next: a thread is started, or can not be, or goes on. -/
inductive Move where
  | spawn
  | spawnFails
  | work (thread : Nat)

namespace Pool

variable {σ : Type}

/-- There are no more threads than units. -/
def start (settings : Settings) (units : List String) (host : σ) : Pool σ :=
  ⟨⟨host, 0, []⟩, min settings.jobs units.length, []⟩

def Stopped (pool : Pool σ) : Prop :=
  pool.toSpawn = 0 ∧ ∀ worker ∈ pool.workers, worker = .stopped

instance (pool : Pool σ) : Decidable pool.Stopped := inferInstanceAs (Decidable (_ ∧ _))

/-- What holds at any time of the units compiled so far and those that threads have in hand. -/
structure Sound (settings : Settings) (units : List String) (pool : Pool σ)
    (done : List Compilation) : Prop where
  jobs : (done.map Compilation.job ++ pool.workers.flatMap Worker.jobs).Perm
    (units.zipIdx.take pool.shared.next)
  failed : (pool.shared.failed ++ pool.workers.flatMap Worker.unrecorded).Perm (failures done)
  stopped : .stopped ∈ pool.workers → units.length ≤ pool.shared.next
  nobody : pool.workers = [] → pool.toSpawn = min settings.jobs units.length
  working : ∀ worker ∈ pool.workers, worker.Possible settings
  done : ∀ c ∈ done, c.Possible settings

theorem sound_start (settings : Settings) (units : List String) (host : σ) :
    (start settings units host).Sound settings units [] where
  jobs := by simp [start]
  failed := by simp [start, failures]
  stopped := by simp [start]
  nobody := by simp [start]
  working := by simp [start]
  done := by simp

section

variable {settings : Settings} {units : List String} {pool : Pool σ} {done : List Compilation}

/-- With no thread left that works, no unit is left. -/
theorem Sound.length_le (h : pool.Sound settings units done) (hjobs : 1 ≤ settings.jobs)
    (hstopped : pool.Stopped) : units.length ≤ pool.shared.next := by
  cases hworkers : pool.workers with
  | nil =>
    have hnone := h.nobody hworkers
    rw [hstopped.1] at hnone
    omega
  | cons worker workers =>
    have hworker : worker = .stopped := hstopped.2 worker (by simp [hworkers])
    exact h.stopped (by simp [hworkers, hworker])

/-- When all threads have stopped, each unit has been compiled once, with a result that its
compilation can have, and there are as many units on the list as have failed. -/
theorem Sound.of_stopped (h : pool.Sound settings units done) (hjobs : 1 ≤ settings.jobs)
    (hstopped : pool.Stopped) :
    (done.map Compilation.job).Perm units.zipIdx ∧ (∀ c ∈ done, c.Possible settings) ∧
      pool.shared.failed.length = done.countP (·.failure?.isSome) := by
  have hnone : pool.workers.flatMap Worker.jobs = [] ∧
      pool.workers.flatMap Worker.unrecorded = [] := by
    simp only [List.flatMap_eq_nil_iff]
    constructor <;> intro worker hworker <;> rw [hstopped.2 worker hworker] <;> rfl
  refine ⟨?_, h.done, ?_⟩
  · have hall := h.jobs
    rwa [hnone.1, List.append_nil, List.take_of_length_le] at hall
    simpa using h.length_le hjobs hstopped
  · have hfailed := h.failed.length_eq
    rwa [hnone.2, List.append_nil, failures, List.length_map, ← List.countP_eq_length_filter]
      at hfailed

end

variable [Host (StateM σ)]

section

variable (settings : Settings) (units : List String)

/-- If a thread can not be started, the one that starts them works in its place and starts no
more. -/
def move (pool : Pool σ) : Move → Option (Pool σ × List Compilation)
  | .spawn =>
    if pool.toSpawn = 0 then none
    else some (⟨pool.shared, pool.toSpawn - 1, pool.workers ++ [.ready]⟩, [])
  | .spawnFails =>
    if pool.toSpawn = 0 then none
    else some (⟨pool.shared, 0, pool.workers ++ [.ready]⟩, [])
  | .work thread =>
    pool.workers[thread]?.map fun worker =>
      let p := worker.step settings units pool.shared
      (⟨p.shared, pool.toSpawn, pool.workers.set thread p.worker⟩, p.done)

/-- A run, with the units that were compiled in it. -/
def run (pool : Pool σ) : List Move → Option (Pool σ × List Compilation)
  | [] => some (pool, [])
  | m :: moves => do
    let (pool, done) ← pool.move settings units m
    let (pool, more) ← pool.run moves
    return (pool, done ++ more)

/-- The moves can be made, and then no thread is left that works. -/
def Stops (host : σ) (moves : List Move) : Prop :=
  ∃ pool done, (start settings units host).run settings units moves = some (pool, done) ∧
    pool.Stopped

/-- Units compiled by threads that go on as the moves say, for the number of those that failed. -/
def compileAll (moves : List Move) (settings : Settings) (units : List String) : StateM σ Nat :=
  fun host =>
    match (start settings units host).run settings units moves with
    | some (pool, _) => (pool.shared.failed.length, pool.shared.host)
    | none => (0, host)

end

variable {settings : Settings} {units : List String} {pool pool' : Pool σ} {host : σ}
  {done more : List Compilation} {moves : List Move}

/-- Either there is one thread more, or one of them has made a step. -/
theorem move_cases {m : Move} (h : pool.move settings units m = some (pool', done)) :
    (done = [] ∧ pool'.shared = pool.shared ∧ pool'.workers = pool.workers ++ [.ready]) ∨
      ∃ before worker after p, pool.workers = before ++ worker :: after ∧
        worker.step settings units pool.shared = p ∧
        pool' = ⟨p.shared, pool.toSpawn, before ++ p.worker :: after⟩ ∧ done = p.done := by
  cases m with
  | spawn | spawnFails =>
    rw [move] at h
    split at h
    · simp at h
    · obtain ⟨rfl, rfl⟩ : _ = pool' ∧ [] = done := by simpa using h
      exact .inl ⟨rfl, rfl, rfl⟩
  | work thread =>
    obtain ⟨worker, hworker, heq⟩ := Option.map_eq_some_iff.1 h
    obtain ⟨hlt, rfl⟩ := List.getElem?_eq_some_iff.1 hworker
    obtain ⟨p, hp⟩ : ∃ p, pool.workers[thread].step settings units pool.shared = p := ⟨_, rfl⟩
    simp only [hp] at heq
    obtain ⟨rfl, rfl⟩ := Prod.mk.inj heq
    obtain ⟨before, after, hsplit, -, hset⟩ : ∃ before after,
        pool.workers = before ++ pool.workers[thread] :: after ∧ before.length = thread ∧
          pool.workers.set thread p.worker = before ++ p.worker :: after := List.exists_of_set hlt
    exact .inr ⟨before, _, after, p, hsplit, hp, by rw [hset], rfl⟩

theorem Sound.move {m : Move} (h : pool.Sound settings units done)
    (hmove : pool.move settings units m = some (pool', more)) :
    pool'.Sound settings units (done ++ more) := by
  obtain ⟨rfl, hshared, hworkers⟩ | ⟨before, worker, after, p, hworkers, hstep, rfl, rfl⟩ :=
    move_cases hmove
  · have hready : Worker.Possible settings .ready := trivial
    refine ⟨?_, ?_, ?_, ?_, ?_, ?_⟩
    · simpa [hshared, hworkers, Worker.jobs] using h.jobs
    · simpa [hshared, hworkers, Worker.unrecorded] using h.failed
    · simpa [hshared, hworkers] using h.stopped
    · simp [hworkers]
    · simpa [hworkers, or_imp, forall_and, hready] using h.working
    · simpa using h.done
  · have hworking := h.working
    have hjobs := h.jobs
    have hfailed := h.failed
    simp only [hworkers, List.forall_mem_append, List.forall_mem_cons] at hworking
    obtain ⟨hbefore, hworker, hafter⟩ := hworking
    obtain ⟨hnext, hmore⟩ := Worker.step_possible hstep hworker
    refine ⟨?_, ?_, ?_, ?_, ?_, ?_⟩
    · have htaken := Worker.step_jobs hstep
      -- The jobs of one thread change between those of the others, so both sides are counted.
      rw [hworkers, List.perm_iff_count] at hjobs
      rw [List.perm_iff_count] at htaken ⊢
      intro job
      have := hjobs job
      have := htaken job
      simp only [List.map_append, List.flatMap_append, List.flatMap_cons, List.count_append] at *
      omega
    · have hrecorded := Worker.step_failed hstep
      rw [hworkers, List.perm_iff_count] at hfailed
      rw [List.perm_iff_count]
      intro path
      have := hfailed path
      have := congrArg (List.count path) hrecorded
      simp only [failures_append, List.flatMap_append, List.flatMap_cons, List.count_append] at *
      omega
    · intro hmem
      refine Nat.le_trans ?_ (Worker.step_next hstep)
      obtain hmem | heq | hmem : _ ∨ p.worker = .stopped ∨ _ := by simpa [eq_comm] using hmem
      · exact h.stopped (by simp [hworkers, hmem])
      · obtain rfl | hle := Worker.step_stopped hstep heq
        · exact h.stopped (by simp [hworkers])
        · exact hle
      · exact h.stopped (by simp [hworkers, hmem])
    · simp
    · exact List.forall_mem_append.2 ⟨hbefore, List.forall_mem_cons.2 ⟨hnext, hafter⟩⟩
    · exact List.forall_mem_append.2 ⟨h.done, hmore⟩

theorem Sound.run (h : pool.Sound settings units done)
    (hrun : pool.run settings units moves = some (pool', more)) :
    pool'.Sound settings units (done ++ more) := by
  induction moves generalizing pool done more with
  | nil =>
    obtain ⟨rfl, rfl⟩ : pool = pool' ∧ [] = more := by simpa [Pool.run] using hrun
    simpa using h
  | cons m moves ih =>
    obtain ⟨⟨pool₁, done₁⟩, hmove, hrun⟩ := Option.bind_eq_some_iff.1 hrun
    obtain ⟨⟨pool₂, done₂⟩, hmoves, heq⟩ := Option.bind_eq_some_iff.1 hrun
    obtain ⟨rfl, rfl⟩ : pool₂ = pool' ∧ done₁ ++ done₂ = more := by simpa using heq
    rw [← List.append_assoc]
    exact ih (h.move hmove) hmoves

/-! ### One thread alone -/

/-- One thread, and no other to come. -/
def lone (shared : Shared σ) (worker : Worker) : Pool σ := ⟨shared, 0, [worker]⟩

def Reaches (settings : Settings) (units : List String) (pool pool' : Pool σ) : Prop :=
  ∃ moves done, pool.run settings units moves = some (pool', done)

namespace Reaches

variable {shared : Shared σ} {worker : Worker} {pool₁ : Pool σ}

theorem refl : Reaches settings units pool pool := ⟨[], [], rfl⟩

theorem head {m : Move} (hmove : pool.move settings units m = some (pool₁, done))
    (h : Reaches settings units pool₁ pool') : Reaches settings units pool pool' := by
  obtain ⟨moves, more, hrun⟩ := h
  exact ⟨m :: moves, done ++ more, by simp [Pool.run, hmove, hrun]⟩

theorem step {p : Progress σ} (hstep : worker.step settings units shared = p)
    (h : Reaches settings units (lone p.shared p.worker) pool) :
    Reaches settings units (lone shared worker) pool := by
  have hmove : (lone shared worker).move settings units (.work 0) =
      some (lone p.shared p.worker, p.done) := by simp [Pool.move, lone, hstep]
  exact h.head hmove

/-- A thread alone does for a unit what one host does for it. -/
theorem compile {job : Job} {script : Script (Option UnitFailure)} {result : Option UnitFailure}
    {host : σ} (hresult : (script.run : StateM σ _) shared.host = (result, host))
    (h : Reaches settings units (lone { shared with host } (.compiling job (.done result))) pool) :
    Reaches settings units (lone shared (.compiling job script)) pool := by
  induction script generalizing shared with
  | done value =>
    obtain ⟨rfl, rfl⟩ : value = result ∧ shared.host = host := Prod.mk.inj hresult
    exact h
  | ask request next ih => exact step rfl (ih _ hresult h)

end Reaches

/-- A thread alone compiles the units that are left one after the other. -/
theorem Reaches.exists_stopped (shared : Shared σ) {rest : List String}
    (h : units.drop shared.next = rest) :
    ∃ pool, Reaches settings units (lone shared .ready) pool ∧ pool.Stopped ∧
      pool.shared.failed.length =
        shared.failed.length + ((Jack.compileAll settings rest : StateM σ Nat) shared.host).1 ∧
      pool.shared.host = ((Jack.compileAll settings rest : StateM σ Nat) shared.host).2 := by
  induction rest generalizing shared with
  | nil =>
    have hnone : units[shared.next]? = none := by simpa using h
    have hstop : Worker.ready.step settings units shared = ⟨shared.take, .stopped, []⟩ := by
      simp [Worker.step, hnone]
    exact ⟨lone shared.take .stopped, .step hstop .refl, by simp [Stopped, lone], rfl, rfl⟩
  | cons path rest ih =>
    have hsome : units[shared.next]? = some path := by
      rw [← List.head?_drop, h, List.head?_cons]
    have hrest : units.drop (shared.next + 1) = rest := by
      rw [← List.tail_drop, h, List.tail_cons]
    have htake : Worker.ready.step settings units shared =
        ⟨shared.take, .compiling (path, shared.next) (compileUnit settings path), []⟩ := by
      simp [Worker.step, hsome]
    cases hunit : (compileUnit settings path : StateM σ _) shared.host with
    | mk result host =>
      have hrun : ((compileUnit settings path : Script _).run : StateM σ _) shared.take.host =
          (result, host) := by rw [Script.run_compileUnit]; exact hunit
      simp only [Jack.compileAll, bind, StateT.bind, hunit]
      cases result with
      | none =>
        obtain ⟨pool, hreaches, hend⟩ := ih { shared.take with host } hrest
        exact ⟨pool, .step htake (.compile hrun (.step rfl hreaches)), hend⟩
      | some failure =>
        -- Two steps more than without a failure: it is reported, and the unit put on the list.
        obtain ⟨pool, hreaches, hstopped, hfailed, hhost⟩ := ih { shared.take with
          host := ((Host.report (.failed failure) : StateM σ Unit) host).2
          failed := shared.failed ++ [path] } hrest
        refine ⟨pool, .step htake (.compile hrun (.step rfl (.step rfl (.step rfl hreaches)))),
          hstopped, ?_, hhost⟩
        rw [hfailed, List.length_append, List.length_singleton, Nat.add_assoc, Nat.add_comm 1]
        rfl

/-- Compiling the units one after the other is what a run can come to, as when no thread can be
started. -/
theorem exists_run_eq_compileAll (hjobs : 1 ≤ settings.jobs) (units : List String) (host : σ) :
    ∃ moves pool done, (start settings units host).run settings units moves = some (pool, done) ∧
      pool.Stopped ∧ (Jack.compileAll settings units : StateM σ Nat) host =
        (pool.shared.failed.length, pool.shared.host) := by
  cases units with
  | nil => exact ⟨[], start settings [] host, [], rfl, by simp [Stopped, start], rfl⟩
  | cons path paths =>
    have hdrop : (path :: paths).drop (⟨host, 0, []⟩ : Shared σ).next = path :: paths := rfl
    obtain ⟨pool, hreaches, hstopped, hfailed, hhost⟩ :=
      Reaches.exists_stopped ⟨host, 0, []⟩ hdrop
    have hspawn : (start settings (path :: paths) host).move settings (path :: paths) .spawnFails =
        some (lone ⟨host, 0, []⟩ .ready, []) := by
      have hne : min settings.jobs (paths.length + 1) ≠ 0 := by omega
      simp [move, start, lone, hne]
    obtain ⟨moves, done, hrun⟩ := hreaches.head hspawn
    rw [List.length_nil, Nat.zero_add] at hfailed
    exact ⟨moves, pool, done, hrun, hstopped, Prod.ext hfailed.symm hhost.symm⟩

/-- In whatever order threads go on, and whichever of them can be started: when all have stopped,
each unit has been compiled once, with a result that its compilation can have, and there are as many
units on the list as have failed. One such run is to compile them one after the other. -/
theorem run_compiles_each_once (hjobs : 1 ≤ settings.jobs) (units : List String) (host : σ) :
    (∀ moves pool done,
      (start settings units host).run settings units moves = some (pool, done) → pool.Stopped →
        (done.map Compilation.job).Perm units.zipIdx ∧ (∀ c ∈ done, c.Possible settings) ∧
          pool.shared.failed.length = done.countP (·.failure?.isSome)) ∧
    ∃ moves pool done,
      (start settings units host).run settings units moves = some (pool, done) ∧ pool.Stopped ∧
        (Jack.compileAll settings units : StateM σ Nat) host =
          (pool.shared.failed.length, pool.shared.host) := by
  refine ⟨fun moves pool done hrun hstopped => ?_, exists_run_eq_compileAll hjobs units host⟩
  have hsound : pool.Sound settings units done := (sound_start settings units host).run hrun
  exact hsound.of_stopped hjobs hstopped

/-- Two threads take turns, the second of them the one that could not start a third. Of the units,
one is missing, and asked for twice. -/
theorem run_takes_turns :
    let host : Session := ⟨{ entries := [(["B.jack"], .file "class B \x7b \x7d".toUTF8)] }, []⟩
    let settings : Settings := ⟨false, false, none, 3⟩
    let units := ["A.jack", "B.jack", "A.jack"]
    let moves := [.spawn, .work 0, .spawnFails] ++ (List.replicate 14 [.work 1, .work 0]).flatten
    1 ≤ settings.jobs ∧ ∃ pool done,
      (start settings units host).run settings units moves = some (pool, done) ∧ pool.Stopped ∧
        done.map Compilation.job = [("A.jack", 0), ("A.jack", 2), ("B.jack", 1)] ∧
        (done.map Compilation.job).Perm units.zipIdx ∧
        pool.shared.failed = ["A.jack", "A.jack"] ∧
        pool.shared.failed.length = done.countP (·.failure?.isSome) := by
  intro host settings units moves
  have hrun : ∃ r ∈ (start settings units host).run settings units moves, r.1.Stopped ∧
      r.2.map Compilation.job = [("A.jack", 0), ("A.jack", 2), ("B.jack", 1)] ∧
      r.1.shared.failed = ["A.jack", "A.jack"] := by
    decide +kernel
  obtain ⟨⟨pool, done⟩, hrun, hstopped, horder, hfailed⟩ := hrun
  have hjobs : 1 ≤ settings.jobs := by decide
  obtain ⟨hperm, -, hcount⟩ :=
    (run_compiles_each_once hjobs units host).1 moves pool done hrun hstopped
  exact ⟨hjobs, pool, done, hrun, hstopped, horder, hperm, hfailed, hcount⟩

end Pool

end Jack
