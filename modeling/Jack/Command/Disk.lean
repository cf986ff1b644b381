import Jack.Command.Host
import Jack.Command.Path

/-!
A disk in memory, and the runs on it. Files and directories are found under the names on the way to
them from the working directory. Ways that lead out of it start with `..` or with the root.
-/

namespace Jack

inductive Entry where
  | file (bytes : ByteArray)
  | directory
deriving BEq

/-- Why the system does not write what it is given, and what is in the file then, if the file was
touched. -/
structure Refusal where
  error : FileError
  left : Option ByteArray

structure Disk where
  /-- What is below the working directory, in the order in which it was made. -/
  entries : List (List String × Entry)
  /-- The writes that fail though a file could be there, as for want of a right or of room. -/
  refuses : List String → ByteArray → Option Refusal := fun _ _ => none

namespace Disk

def empty : Disk := { entries := [] }

/-- Directories that are always there: the working directory, those above it, and the root. -/
def isFixed (way : List String) : Bool := way.all (· = "..") || way = ["/"]

/-- What is at the end of the way. -/
def get? (disk : Disk) (way : List String) : Option Entry :=
  if isFixed way then some .directory else disk.entries.lookup way

/-- Entries with one put in the place of the one before, or behind all others. -/
def putEntry (way : List String) (entry : Entry) :
    List (List String × Entry) → List (List String × Entry)
  | [] => [(way, entry)]
  | (w, e) :: entries =>
    if w = way then (way, entry) :: entries else (w, e) :: putEntry way entry entries

def put (disk : Disk) (way : List String) (entry : Entry) : Disk :=
  { disk with entries := putEntry way entry disk.entries }

theorem lookup_putEntry (way other : List String) (entry : Entry)
    (entries : List (List String × Entry)) :
    (putEntry way entry entries).lookup other =
      if other = way then some entry else entries.lookup other := by
  induction entries with
  | nil => by_cases h : other = way <;> simp [putEntry, h]
  | cons head entries ih =>
    obtain ⟨w, e⟩ := head
    by_cases h : other = w
    · subst h
      by_cases hw : other = way <;> simp [putEntry, hw]
    · have hb : (other == w) = false := beq_false_of_ne h
      by_cases hw : w = way
      · subst hw
        simp [putEntry, List.lookup_cons, hb, h]
      · simp [putEntry, hw, List.lookup_cons, hb, ih]

theorem get?_put_self (disk : Disk) {way : List String} (entry : Entry) (h : isFixed way = false) :
    (disk.put way entry).get? way = some entry := by
  simp [get?, put, h, lookup_putEntry]

theorem get?_put_of_ne (disk : Disk) {way other : List String} (entry : Entry)
    (h : other ≠ way) : (disk.put way entry).get? other = disk.get? other := by
  simp [get?, put, h, lookup_putEntry]

/-- The most bytes in a name. -/
def maxName : Nat := 255

/-- The most bytes in a path. -/
def maxPath : Nat := 4095

/-- The way to the directory around. -/
def up (way : List String) : List String :=
  if way = ["/"] then way
  else if isFixed way then way ++ [".."]
  else way.dropLast

/-- Goes down the parts of a path. Everything but the last has to be a directory, and no name may be
too long for the directory that it is looked up in. -/
def walk (disk : Disk) (way : List String) : List String → Except FileError (List String)
  | [] => .ok way
  | part :: parts =>
    match disk.get? way with
    | none => .error .notFound
    | some (.file _) => .error .notADirectory
    | some .directory =>
      if Path.isIdle part then disk.walk way parts
      else if part = ".." then disk.walk (up way) parts
      else if maxName < part.utf8ByteSize then .error .nameTooLong
      else disk.walk (way ++ [part]) parts

/-- What is wrong with a path on every disk. -/
def pathFault? (path : String) : Option FileError :=
  if path.toList.contains '\x00' then some .nullInPath
  else if path = "" then some .notFound
  else if maxPath < path.utf8ByteSize then some .nameTooLong
  else none

/-- Where a path starts. -/
def origin (path : String) : List String := if path.startsWith "/" then ["/"] else []

/-- The way to what a path names. It may lead to nothing. -/
def find (disk : Disk) (path : String) : Except FileError (List String) :=
  match pathFault? path with
  | some e => .error e
  | none => disk.walk (origin path) (Path.parts path)

def kindAt (disk : Disk) (path : String) : Option EntryKind :=
  match disk.find path with
  | .error _ => none
  | .ok way =>
    match disk.get? way with
    | some (.file _) => some .file
    | some .directory => some .directory
    | none => none

def read (disk : Disk) (path : String) : Except FileError ByteArray := do
  match disk.get? (← disk.find path) with
  | some (.file bytes) => .ok bytes
  | some .directory => .error .isADirectory
  | none => .error .notFound

/-- Where a file is put that is written to a path. -/
def target (disk : Disk) (path : String) : Except FileError (List String) := do
  let way ← disk.find path
  match disk.get? way with
  | some .directory => .error .isADirectory
  | _ => .ok way

/-- Also a write that fails can leave something in the file. -/
def write (disk : Disk) (path contents : String) : Except FileError Unit × Disk :=
  match disk.target path with
  | .error e => (.error e, disk)
  | .ok way =>
    match disk.refuses way contents.toUTF8 with
    | none => (.ok (), disk.put way (.file contents.toUTF8))
    | some ⟨e, none⟩ => (.error e, disk)
    | some ⟨e, some bytes⟩ => (.error e, disk.put way (.file bytes))

/-- A slash behind the name of a new directory does no harm. -/
def makeDir (disk : Disk) (path : String) : Except FileError Disk := do
  let parts := ((Path.parts path).reverse.dropWhile (· = "")).reverse
  let way ← match pathFault? path with
    | some e => .error e
    | none => disk.walk (origin path) parts
  match disk.get? way with
  | some _ => .error .alreadyExists
  | none => .ok (disk.put way .directory)

def list (disk : Disk) (path : String) : Except FileError (List String) := do
  let way ← disk.find path
  match disk.get? way with
  | some .directory =>
    .ok (disk.entries.filterMap fun (w, _) =>
      if w.dropLast = way then w.getLast? else none)
  | some (.file _) => .error .notADirectory
  | none => .error .notFound

/-- The disk with an entry put at a path, and the directories on the way made. -/
def place (disk : Disk) (path : String) (entry : Entry) : Disk :=
  let way := (Path.parts path).filter fun part => !Path.isIdle part
  let disk := (List.range (way.length - 1)).foldl (fun disk n =>
    let above := way.take (n + 1)
    if (disk.get? above).isSome then disk else disk.put above .directory) disk
  match entry with
  | .directory => if (disk.get? way).isSome then disk else disk.put way .directory
  | .file _ => disk.put way entry

def isInside (way : List String) : Bool := way.head? ≠ some ".." && way.head? ≠ some "/"

/-- What a later disk holds in the working directory that this one does not, or not so. -/
def changes (disk later : Disk) : List (String × Entry) :=
  later.entries.filterMap fun (way, entry) =>
    if !isInside way || disk.get? way == some entry then none
    else some (String.intercalate "/" way, entry)

end Disk

/-- A disk and what was reported, last first. -/
structure Session where
  disk : Disk
  notices : List Notice

namespace Session

/-- The records up to a rank, first to last. -/
def records (s : Session) (rank : Nat) : List String :=
  (s.notices.reverse.filter (·.severity.rank ≤ rank)).map Notice.text

/-- A disk in memory has no clock. -/
instance : Host (StateM Session) where
  kindAt path := fun s => (s.disk.kindAt path, s)
  read path := fun s => (s.disk.read path, s)
  write path contents := fun s =>
    let (result, disk) := s.disk.write path contents
    (result, { s with disk })
  makeDir path := fun s =>
    match s.disk.makeDir path with
    | .ok disk => (.ok (), { s with disk })
    | .error e => (.error e, s)
  list path := fun s => (s.disk.list path, s)
  report notice := fun s => ((), { s with notices := notice :: s.notices })
  elapsed := fun s => ("_", s)

end Session

end Jack
