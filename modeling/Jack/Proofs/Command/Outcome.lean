import Jack.Proofs.Command.Starts
import Jack.Proofs.Command.Threads

/-!
The outcome of a run. If all outputs can be written, the sources alone decide which units fail and
why, which ending the run has, and what is in the files for the code: all of it, or what was there
before. Listings that are asked for change nothing of this, nor does it matter how many threads
there are and in which order they go on.
-/

namespace Jack

abbrev Session.run (s : Session) (args : List String) : Ending × Session :=
  (Jack.run args : StateM Session Ending) s

/-- A run with threads that go on as the moves say. -/
abbrev Session.runWith (s : Session) (facilities : Facilities) (moves : List Move)
    (args : List String) : Ending × Session :=
  (Jack.runWith facilities (Pool.compileAll moves) args : StateM Session Ending) s

/-- Each output of the units has a path that the system takes and that is not one of a directory,
and no write to it is refused. -/
def Disk.Takes (disk : Disk) (settings : Settings) (units : List String) : Prop :=
  ∀ unit ∈ units, ∀ suffix ∈ settings.suffixes,
    disk.kindAt (outputPath settings unit suffix) ≠ some .directory ∧
      (outputPath settings unit suffix).utf8ByteSize ≤ Disk.maxPath ∧
      ∀ way, disk.find (outputPath settings unit suffix) = .ok way →
        ∀ bytes, disk.refuses way bytes = none

/-- How a run ends that finds units on a disk, after it has made directories for their outputs. -/
structure Session.Outcome (s : Session) (begun : Disk) (settings : Settings) (units : List String)
    (ended : Ending × Session) : Prop where
  /-- Before the units are compiled, no file is changed. -/
  files : ∀ way bytes,
    begun.get? way = some (.file bytes) ↔ s.disk.get? way = some (.file bytes)
  ending : ended.1 = ⟨if units.any fun unit => (begun.failure? unit).isSome then 1 else 0, "", ""⟩
  /-- The failures are reported in the order in which the threads come to them. -/
  failures : ended.2.failures.Perm (s.failures ++ units.filterMap begun.failure?)
  /-- The file for the code of a unit holds the code, or is as it was. -/
  code : ∀ unit ∈ units, ∃ way,
    ended.2.disk.find (outputPath settings unit ".vm") = .ok way ∧
    (∀ code, begun.compile unit = .ok code →
      ended.2.disk.get? way = some (.file (render code).toUTF8)) ∧
    ∀ failure, begun.compile unit = .error failure → ended.2.disk.get? way = s.disk.get? way

section

variable {settings : Settings} {disk : Disk} {dir : String} {units : List String}

end

namespace Session

variable {s begun : Session} {facilities : Facilities} {moves : List Move} {args : List String}
  {options : Options} {settings : Settings} {units : List String}

/-- The end of a run, given how many units failed and the session then. -/
def finish (units : List String) (compiled : Nat × Session) : Ending × Session :=
  (⟨if compiled.1 = 0 then 0 else 1, "", ""⟩,
    ⟨compiled.2.disk,
      .finished (units.length - compiled.1) units.length "_" :: compiled.2.notices⟩)

end Session

/-! ### Two units, one with an error -/

/-- One unit, alone in the working directory. -/
def lone : Disk where
  entries := [(["A.jack"], .file "class A \x7b \x7d".toUTF8)]

section

variable {n : Nat} (hn : 0 < n) (hdir : 2 * n ≤ Disk.maxPath)

include hn hdir

end

end Jack
