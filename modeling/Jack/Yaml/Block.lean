import Jack.Yaml.Scalar

/-!
Block scalars: the lines below a `|` or `>` that are deeper than what is around them. The lines of a
literal scalar stay as they are, those of a folded one are joined where neither starts with a blank.
-/

namespace Jack.Yaml

/-- What happens to the breaks at the end: all go, the first stays, or all stay. -/
inductive Chomping where
  | strip | clip | keep
deriving DecidableEq, Repr

structure BlockHeader where
  chomping : Chomping
  /-- How much deeper the lines are, if it is said. -/
  deeper : Option Nat
deriving DecidableEq, Repr

namespace BlockHeader

def chomping? : List Spot → Option (Chomping × List Spot)
  | s :: rest =>
    if s.char = '+' then some (.keep, rest)
    else if s.char = '-' then some (.strip, rest)
    else none
  | [] => none

/-- A digit, and the refusal of zero. -/
def deeper? : List Spot → Option (Option Nat × List Spot)
  | s :: rest =>
    if s.char = '0' then none
    else if isDigit s.char then some (some (s.char.toNat - '0'.toNat), rest)
    else some (none, s :: rest)
  | [] => some (none, [])

/-- The header behind the indicator, its two parts in either order, and the lines below it. -/
def read? (spots : List Spot) : Option (BlockHeader × List Spot) := do
  match chomping? spots with
  | some (chomping, rest) =>
    let (deeper, rest) ← deeper? rest
    return (⟨chomping, deeper⟩, ← endLine? rest)
  | none =>
    let (deeper, rest) ← deeper? spots
    let (chomping, rest) := match deeper, chomping? rest with
      | some _, some (chomping, rest) => (chomping, rest)
      | _, _ => (.clip, rest)
    return (⟨chomping, deeper⟩, ← endLine? rest)

end BlockHeader

/-! ### Lines -/

/-- The lines, each with its break. -/
def splitLines : List Spot → List (List Spot)
  | [] => []
  | s :: rest =>
    if isBreak s.char then [s] :: splitLines rest
    else
      match splitLines rest with
      | [] => [[s]]
      | line :: lines => (s :: line) :: lines

/-- The number of spaces in front. -/
def spaces (line : List Spot) : Nat := (line.takeWhile (·.char = ' ')).length

/-- The depth of the first lines, `least` or more: the most spaces in front of a line, up to the
first that holds anything else. A tab there is refused. -/
def depth? (least : Nat) : List (List Spot) → Option Nat
  | [] => some least
  | line :: lines =>
    let widest := max least (spaces line)
    match line.drop (spaces line) with
    | [] => some widest
    | s :: _ =>
      if isBreak s.char then depth? widest lines
      else if s.char = '\t' then none
      else some widest

/-- A line of a block scalar without the spaces in front, and its break. -/
structure BlockLine where
  text : List Char
  ending : List Char

def BlockLine.ofSpots (spots : List Spot) : BlockLine :=
  let cs := spots.map Spot.char
  ⟨cs.filter (!isBreak ·), cs.filter (isBreak ·)⟩

/-- The lines at a depth, up to one that is less deep, and what comes then. -/
def blockLines? (depth : Nat) : List (List Spot) → Option (List BlockLine × List Spot)
  | [] => some ([], [])
  | line :: lines =>
    let before := min depth (spaces line)
    match line.drop before with
    | [] => some ([], [])
    | s :: rest =>
      if isBreak s.char || before = depth then
        (blockLines? depth lines).map fun (block, others) =>
          (.ofSpots (s :: rest) :: block, others)
      else if s.char = '\t' then none
      else some ([], s :: rest ++ lines.flatten)

/-! ### Text -/

/-- What was read of a block scalar: the text, the break of its last line, the breaks of the empty
lines below that, and whether the last line starts with a blank. All characters are last first. -/
structure BlockText where
  text : List Char := []
  ending : List Char := []
  empty : List Char := []
  blank : Bool := false

namespace BlockText

def add (folded : Bool) (block : BlockText) (line : BlockLine) : BlockText :=
  match line.text with
  | [] => { block with empty := line.ending ++ block.empty }
  | c :: _ =>
    let joint :=
      if folded && block.ending = ['\n'] && !block.blank && !isBlank c then
        if block.empty.isEmpty then [' '] else []
      else block.ending
    ⟨line.text.reverse ++ (block.empty ++ (joint ++ block.text)), line.ending, [], isBlank c⟩

def chomp (block : BlockText) : Chomping → List Char
  | .strip => block.text
  | .clip => block.ending ++ block.text
  | .keep => block.empty ++ (block.ending ++ block.text)

end BlockText

/-- The scalar behind its indicator, and what comes then. `outer` is the column of the mapping
around it. -/
def block? (folded : Bool) (outer : Option Nat) (spots : List Spot) :
    Option (Scalar × List Spot) := do
  let (header, rest) ← BlockHeader.read? spots
  let lines := splitLines rest
  let depth ← match header.deeper with
    | some deeper => some (outer.getD 0 + deeper)
    | none => depth? (max 1 ((outer.map (· + 1)).getD 0)) lines
  let (block, rest) ← blockLines? depth lines
  let text := (block.foldl (BlockText.add folded) {}).chomp header.chomping
  return (⟨String.ofList text.reverse, if folded then .folded else .literal⟩, rest)

end Jack.Yaml
