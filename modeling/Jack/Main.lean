import Jack.Command.Run

/-!
The command on the files of the system that it runs on.
-/

namespace Jack

structure Console where
  /-- The rank of the least severe records that are shown. -/
  rank : Nat
  /-- The time in milliseconds at which the run began. -/
  began : Nat

def FileError.ofCode (code : Nat) (details : String) : FileError :=
  let known := [notFound, alreadyExists, notADirectory, isADirectory, nameTooLong]
  match known.find? (·.code = some code) with
  | some e => e
  | none => ⟨some code, if code = 13 then "PermissionDenied" else "Uncategorized", details⟩

/-- Some calls give the code with its sign turned. -/
def FileError.ofFailure : IO.Error → FileError
  | .noFileOrDirectory _ code details | .alreadyExists _ code details
  | .inappropriateType _ code details | .permissionDenied _ code details
  | .invalidArgument _ code details | .resourceExhausted _ code details =>
    ofCode code.toInt32.toInt.natAbs details
  | e => ⟨none, "Other", toString e⟩

/-- Does something with the file at a path. -/
def attempt {α : Type} (path : String) (action : IO α) :
    ReaderT Console IO (Except FileError α) := do
  if path.toList.contains '\x00' then return .error .nullInPath
  else
    match ← action.toBaseIO with
    | .ok a => return .ok a
    | .error e => return .error (.ofFailure e)

instance : Host (ReaderT Console IO) where
  kindAt path := do
    match ← attempt path (System.mkFilePath [path]).metadata with
    | .error _ => return none
    | .ok data =>
      match data.type with
      | .dir => return some .directory
      | .file => return some .file
      | _ => return none
  read path := attempt path (IO.FS.readBinFile path)
  write path contents := attempt path (IO.FS.writeFile path contents)
  makeDir path := attempt path (IO.FS.createDir path)
  list path := attempt path do
    return ((← (System.mkFilePath [path]).readDir).map (·.fileName)).toList
  report notice := do
    if notice.severity.rank ≤ (← read).rank then IO.println notice.text
  elapsed := do return toString ((← IO.monoMsNow) - (← read).began)

end Jack

def main (args : List String) : IO UInt32 := do
  let console := ⟨Jack.threshold (← IO.getEnv "RUST_LOG"), ← IO.monoMsNow⟩
  let ending ← (Jack.run args : ReaderT Jack.Console IO Jack.Ending).run console
  IO.print ending.out
  IO.eprint ending.err
  return ending.exitCode.toUInt32
