import Jack.Yaml.Block
import Jack.Yaml.Tag

/-!
The tokens of a file that holds one flat mapping. Whether a scalar is a key shows only at the colon
behind it, so the tokens of what may be a key are held back until then.

Nothing inside a mapping may be a mapping or a list; a text in which there is one is refused here or
by the reader of the tokens.
-/

namespace Jack.Yaml

inductive Token where
  | directive (d : Directive)
  | documentStart | documentEnd
  /-- Around a mapping with a line for each key. -/
  | mappingStart | mappingEnd
  | openBrace | closeBrace | comma
  /-- In front of a key. -/
  | key
  /-- In front of a value. -/
  | value
  | alias (name : String)
  | anchor (name : String)
  | tag (t : Tag)
  | scalar (s : Scalar)
deriving DecidableEq, Repr

/-- What may turn out to be a key. -/
structure Candidate where
  start : Spot
  /-- Nothing but a key can stand at this column. -/
  required : Bool
  /-- The tokens of it, last first. -/
  held : List Token

structure Lexer where
  /-- The tokens before those held back, last first. -/
  tokens : List Token := []
  candidate : Option Candidate := none
  /-- Whether it is between braces. -/
  flow : Bool := false
  /-- The column of the keys of a mapping that has a line for each. -/
  depth : Option Nat := none
  /-- Whether a key can start here. -/
  keyAllowed : Bool := true

namespace Lexer

def emit (l : Lexer) (token : Token) : Lexer :=
  match l.candidate with
  | some c => { l with candidate := some { c with held := token :: c.held } }
  | none => { l with tokens := token :: l.tokens }

/-! ### Keys -/

/-- Gives up what might have been a key. -/
def dropKey? (l : Lexer) : Option Lexer :=
  match l.candidate with
  | none => some l
  | some c =>
    if c.required then none else some { l with tokens := c.held ++ l.tokens, candidate := none }

/-- A key is on one line and not longer than 1024 characters. -/
def expireKey? (l : Lexer) (s : Spot) : Option Lexer :=
  match l.candidate with
  | none => some l
  | some c =>
    if c.start.line < s.line || c.start.index + 1024 < s.index then l.dropKey? else some l

/-- Starts what may be a key. -/
def saveKey? (l : Lexer) (s : Spot) : Option Lexer :=
  if l.keyAllowed then
    l.dropKey?.map fun l =>
      { l with candidate := some ⟨s, !l.flow && l.depth = some s.column, []⟩ }
  else some l

/-! ### Depth -/

/-- Starts a mapping at a column, unless it goes on there. A deeper one would be inside another. -/
def indent? (l : Lexer) (column : Nat) : Option Lexer :=
  if l.flow then some l
  else
    match l.depth with
    | none => some { l.emit .mappingStart with depth := some column }
    | some depth => if depth < column then none else some l

/-- Ends the mapping. -/
def dedent (l : Lexer) : Lexer :=
  if !l.flow && l.depth.isSome then { l.emit .mappingEnd with depth := none } else l

/-- Ends the mapping if its keys are behind the column. -/
def dedentTo (l : Lexer) (column : Nat) : Lexer :=
  if l.depth.any (column < ·) then l.dedent else l

/-! ### Tokens -/

/-- A token of its own line, outside of the mapping. -/
def boundary? (l : Lexer) (token : Token) : Option Lexer :=
  if l.flow then none
  else l.dedent.dropKey?.map fun l => { l.emit token with keyAllowed := false }

def directive? (l : Lexer) (rest : List Spot) : Option (Lexer × List Spot) := do
  let (d, rest) ← Directive.read? rest
  return (← l.boundary? (.directive d), rest)

def openBrace? (l : Lexer) : Option Lexer :=
  if l.flow || l.depth.isSome then none
  else l.dropKey?.map fun l => { l.emit .openBrace with flow := true, keyAllowed := true }

def closeBrace? (l : Lexer) : Option Lexer :=
  if l.flow then
    l.dropKey?.map fun l => { l.emit .closeBrace with flow := false, keyAllowed := false }
  else none

def comma? (l : Lexer) : Option Lexer :=
  if l.flow then l.dropKey?.map fun l => { l.emit .comma with keyAllowed := true } else none

/-- A key behind a question mark. -/
def key? (l : Lexer) (s : Spot) : Option Lexer := do
  if l.flow || l.keyAllowed then
    let l ← (← l.dropKey?).indent? s.column
    return { l.emit .key with keyAllowed := !l.flow }
  else none

/-- A colon. What is held back before it is a key. -/
def value? (l : Lexer) (s : Spot) : Option Lexer := do
  match l.candidate with
  | some c =>
    let l ← { l with candidate := none }.indent? c.start.column
    return { l with tokens := .value :: c.held ++ .key :: l.tokens, keyAllowed := false }
  | none =>
    if l.flow || l.keyAllowed then
      let l ← l.indent? s.column
      return { l.emit .value with keyAllowed := !l.flow }
    else none

/-- The name of an anchor or an alias, and what comes then. -/
def name? (spots : List Spot) : Option (String × List Spot) :=
  let name := spots.takeWhile (isWord ·.char)
  let rest := spots.drop name.length
  if name.isEmpty then none
  else if atGap rest || next ("?:,]\x7d%@\x60".toList.contains ·) rest then some (chars name, rest)
  else none

/-- Saves the place of a token that may start a key. -/
def node? (l : Lexer) (s : Spot) (token : Token) (keyAllowed : Bool) : Option Lexer :=
  (l.saveKey? s).map fun l => { l.emit token with keyAllowed }

/-- The scalar of the lines below. -/
def block? (l : Lexer) (folded : Bool) (rest : List Spot) : Option (Lexer × List Spot) := do
  let (scalar, rest) ← Yaml.block? folded l.depth rest
  let l ← l.dropKey?
  return ({ l.emit (.scalar scalar) with keyAllowed := true }, rest)

def plain? (l : Lexer) (s : Spot) (spots : List Spot) : Option (Lexer × List Spot) := do
  if startsPlain l.flow spots then
    let least := (l.depth.map (· + 1)).getD 0
    let (scalar, broken, rest) ← Yaml.plain? l.flow least spots
    return (← l.node? s (.scalar scalar) broken, rest)
  else none

/-- One token that starts with a given character, and what comes then. -/
def token? (l : Lexer) (s : Spot) (rest : List Spot) : Option (Lexer × List Spot) :=
  match s.char with
  | '\x7b' => l.openBrace?.map (·, rest)
  | '\x7d' => l.closeBrace?.map (·, rest)
  | ',' => l.comma?.map (·, rest)
  | '[' | ']' => none
  | '-' => if atGap rest then none else l.plain? s (s :: rest)
  | '?' => if l.flow || atGap rest then (l.key? s).map (·, rest) else l.plain? s (s :: rest)
  | ':' => if l.flow || atGap rest then (l.value? s).map (·, rest) else l.plain? s (s :: rest)
  | '*' => do
    let (name, rest) ← name? rest
    return (← l.node? s (.alias name) false, rest)
  | '&' => do
    let (name, rest) ← name? rest
    return (← l.node? s (.anchor name) false, rest)
  | '!' => do
    let (tag, rest) ← Tag.read? l.flow rest
    return (← l.node? s (.tag tag) false, rest)
  | '|' => if l.flow then none else l.block? false rest
  | '>' => if l.flow then none else l.block? true rest
  | '\'' | '"' => do
    let (scalar, rest) ← quoted? s.char rest
    return (← l.node? s (.scalar scalar) false, rest)
  | _ => l.plain? s (s :: rest)

/-- The next token. Directives and the boundaries of a document are at the start of a line. -/
def next? (l : Lexer) (s : Spot) (rest : List Spot) : Option (Lexer × List Spot) :=
  if s.column = 0 && s.char = '%' then l.directive? rest
  else if atMarker "---" (s :: rest) then (l.boundary? .documentStart).map (·, rest.drop 2)
  else if atMarker "..." (s :: rest) then (l.boundary? .documentEnd).map (·, rest.drop 2)
  else l.token? s rest

/-- Drops blanks, comments and breaks, and says whether a key can start then. Outside of braces a
break lets a key start, and a tab does not stand where one can. -/
def skipGap (flow keyAllowed comment : Bool) : List Spot → Bool × List Spot
  | [] => (keyAllowed, [])
  | s :: rest =>
    if isBreak s.char then skipGap flow (keyAllowed || !flow) false rest
    else if comment || s.char = '#' then skipGap flow keyAllowed true rest
    else if s.char = ' ' || (s.char = '\t' && (flow || !keyAllowed)) ||
        (s.char = byteOrderMark && s.column = 0) then
      skipGap flow keyAllowed false rest
    else (keyAllowed, s :: rest)

/-- All tokens. Each takes a character, so the number of characters bounds the rounds. -/
def tokensFrom : Nat → Lexer → List Spot → Option (List Token)
  | 0, _, _ => none
  | rounds + 1, l, spots =>
    let (keyAllowed, rest) := skipGap l.flow l.keyAllowed false spots
    let l := { l with keyAllowed }
    match rest with
    | [] => l.dedent.dropKey?.map (·.tokens.reverse)
    | s :: rest => do
      let (l, rest) ← ((← l.expireKey? s).dedentTo s.column).next? s rest
      tokensFrom rounds l rest

end Lexer

def tokenize? (text : String) : Option (List Token) := do
  let spots ← spots? text
  Lexer.tokensFrom (spots.length + 1) {} spots

end Jack.Yaml
