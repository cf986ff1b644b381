import Jack.Command.Notice

/-!
What a run asks of the system that it runs on.
-/

namespace Jack

inductive EntryKind where
  | file | directory
deriving DecidableEq, Repr

class Host (m : Type → Type) where
  /-- What is at a path, if anything is. -/
  kindAt : String → m (Option EntryKind)
  read : String → m (Except FileError ByteArray)
  /-- Makes a file or replaces what it holds. -/
  write : String → String → m (Except FileError Unit)
  /-- Makes one directory. -/
  makeDir : String → m (Except FileError Unit)
  /-- The names in a directory, in no particular order. -/
  list : String → m (Except FileError (List String))
  report : Notice → m Unit
  /-- The milliseconds since the run began. -/
  elapsed : m String

instance {ε : Type} {m : Type → Type} [Monad m] [Host m] : Host (ExceptT ε m) where
  kindAt path := ExceptT.lift (Host.kindAt path)
  read path := ExceptT.lift (Host.read path)
  write path contents := ExceptT.lift (Host.write path contents)
  makeDir path := ExceptT.lift (Host.makeDir path)
  list path := ExceptT.lift (Host.list path)
  report notice := ExceptT.lift (Host.report notice)
  elapsed := ExceptT.lift Host.elapsed

/-- The file as text. -/
def readText {m : Type → Type} [Monad m] [Host m] (path : String) :
    m (Except FileError String) := do
  match ← Host.read path with
  | .error e => return .error e
  | .ok bytes =>
    match String.fromUTF8? bytes with
    | some text => return .ok text
    | none => return .error .notText

end Jack
