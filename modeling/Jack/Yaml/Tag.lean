import Jack.Yaml.Spot

/-!
Tags, which say of what kind a node is, and the directives in front of a document. A tag is written
in full between angle brackets, or with a handle that stands for its start.
-/

namespace Jack.Yaml

/-! ### Names of resources -/

/-- Characters of a tag. Between angle brackets there may be more of them. -/
def isTagChar (wide : Bool) (c : Char) : Bool :=
  isWord c || ";/?:@&=+$.!~*'()".toList.contains c || (wide && ",[]".toList.contains c)

/-- The number of octets to come behind this one, where `left` of them were due: the octets have to
follow the pattern of UTF-8. -/
def octetsLeft? (left octet : Nat) : Option Nat :=
  if left ≠ 0 then if 0x80 ≤ octet && octet < 0xc0 then some (left - 1) else none
  else if octet < 0x80 then some 0
  else if 0xc0 ≤ octet && octet < 0xe0 then some 1
  else if 0xe0 ≤ octet && octet < 0xf0 then some 2
  else if 0xf0 ≤ octet && octet < 0xf8 then some 3
  else none

/-- The characters of a tag, and what comes then. An octet may be written as a percent sign and two
hexadecimal digits; it is kept as the character of that number. -/
def tagCharsFrom (wide : Bool) (left : Nat) (text : List Char) :
    List Spot → Option (List Char × List Spot)
  | [] => if left = 0 then some (text.reverse, []) else none
  | s :: rest =>
    if s.char = '%' then
      match rest with
      | a :: b :: others => do
        let octet := 16 * (← hexValue? a.char) + (← hexValue? b.char)
        tagCharsFrom wide (← octetsLeft? left octet) (.ofNat octet :: text) others
      | _ => none
    else if left ≠ 0 then none
    else if isTagChar wide s.char then tagCharsFrom wide 0 (s.char :: text) rest
    else some (text.reverse, s :: rest)

/-- A null character ends the text, whatever comes behind it. -/
def untilNull (cs : List Char) : String := String.ofList (cs.takeWhile (· ≠ '\x00'))

/-- At least one character of a tag. -/
def tagChars? (wide : Bool) (spots : List Spot) : Option (String × List Spot) :=
  match tagCharsFrom wide 0 [] spots with
  | some (c :: cs, rest) => some (untilNull (c :: cs), rest)
  | _ => none

/-! ### Tags -/

/-- A tag as it is written. Without a handle the suffix is all of it. -/
structure Tag where
  handle : String
  suffix : String
deriving DecidableEq, Repr

namespace Tag

/-- A tag behind its exclamation mark, and what comes then. -/
def parts? (spots : List Spot) : Option (Tag × List Spot) :=
  if next (· = '<') spots then do
    let (suffix, rest) ← tagChars? true (spots.drop 1)
    if next (· = '>') rest then return (⟨"", suffix⟩, rest.drop 1) else none
  else
    let word := spots.takeWhile (isWord ·.char)
    let rest := spots.drop word.length
    if next (· = '!') rest then do
      let (suffix, rest) ← tagChars? false (rest.drop 1)
      return (⟨"!" ++ chars word ++ "!", suffix⟩, rest)
    else do
      let (cs, rest) ← tagCharsFrom false 0 [] spots
      let suffix := untilNull cs
      return (if suffix = "" then ⟨"", "!"⟩ else ⟨"!", suffix⟩, rest)

/-- A gap has to come behind a tag, or a comma between braces. -/
def read? (flow : Bool) (spots : List Spot) : Option (Tag × List Spot) := do
  let (tag, rest) ← parts? spots
  if atGap rest || (flow && next (· = ',') rest) then return (tag, rest) else none

/-- What the handles of every document stand for. -/
def usualHandles : List (String × String) := [("!", "!"), ("!!", "tag:yaml.org,2002:")]

/-- The tag in full, where the handles are those of a document. -/
def resolve? (handles : List (String × String)) (tag : Tag) : Option String :=
  if tag.handle = "" then some tag.suffix
  else ((handles ++ usualHandles).lookup tag.handle).map (· ++ tag.suffix)

end Tag

/-! ### Directives -/

inductive Directive where
  /-- The version of the language, 1.1 or 1.2. -/
  | version
  /-- A handle and what it stands for. -/
  | handle (name start : String)
deriving DecidableEq, Repr

namespace Directive

/-- A number of nine digits at most. -/
def number? (spots : List Spot) : Option (Nat × List Spot) :=
  let digits := spots.takeWhile (isDigit ·.char)
  if digits.isEmpty || 9 < digits.length then none
  else
    some (digits.foldl (fun n s => 10 * n + (s.char.toNat - '0'.toNat)) 0, spots.drop digits.length)

def version? (spots : List Spot) : Option (Directive × List Spot) := do
  let (major, rest) ← number? (skipBlanks spots)
  if next (· = '.') rest then
    let (minor, rest) ← number? (rest.drop 1)
    if major = 1 && (minor = 1 || minor = 2) then return (.version, ← endLine? rest) else none
  else none

/-- A handle: one exclamation mark, or a word between two. -/
def handleName? (spots : List Spot) : Option (String × List Spot) :=
  if next (· = '!') spots then
    let word := (spots.drop 1).takeWhile (isWord ·.char)
    let rest := spots.drop (word.length + 1)
    if next (· = '!') rest then some ("!" ++ chars word ++ "!", rest.drop 1)
    else if word.isEmpty then some ("!", rest)
    else none
  else none

def handle? (spots : List Spot) : Option (Directive × List Spot) := do
  let (name, rest) ← handleName? (skipBlanks spots)
  if next isBlank rest then
    let (start, rest) ← tagChars? true (skipBlanks rest)
    if atGap rest then return (.handle name start, ← endLine? rest) else none
  else none

/-- A directive behind its percent sign, and the lines below it. -/
def read? (spots : List Spot) : Option (Directive × List Spot) :=
  let name := spots.takeWhile (isWord ·.char)
  let rest := spots.drop name.length
  if !atGap rest then none
  else
    match chars name with
    | "YAML" => version? rest
    | "TAG" => handle? rest
    | _ => none

end Directive

end Jack.Yaml
