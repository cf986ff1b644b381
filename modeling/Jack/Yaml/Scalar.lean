import Jack.Yaml.Spot

/-!
Plain and quoted scalars. Both may go on over several lines: a single break then counts as a space,
and of several breaks all but the first are kept.
-/

namespace Jack.Yaml

inductive Style where
  | plain | quoted | literal | folded
deriving DecidableEq, Repr

structure Scalar where
  text : String
  style : Style
deriving DecidableEq, Repr

/-- What stands between two words: blanks, or breaks with the blanks around them dropped. A soft
start is a line feed, which shows only as a space. The characters are kept last first. -/
inductive Gap where
  | blanks (seen : List Char)
  | breaks (soft : Bool) (kept : List Char)

namespace Gap

def none : Gap := .blanks []

def isNone : Gap → Bool
  | blanks seen => seen.isEmpty
  | breaks .. => false

def isBroken : Gap → Bool
  | blanks _ => false
  | breaks .. => true

/-- The gap with one more blank or break. -/
def add (c : Char) : Gap → Gap
  | blanks seen =>
    if isBreak c then if c = '\n' then breaks true [] else breaks false [c]
    else blanks (c :: seen)
  | breaks soft kept => breaks soft (if isBreak c then c :: kept else kept)

/-- What a scalar holds for the gap, last first. -/
def joint : Gap → List Char
  | blanks seen => seen
  | breaks soft kept => if soft && kept.isEmpty then [' '] else kept

end Gap

/-! ### Plain scalars -/

/-- Characters that end a plain scalar between braces. -/
def isFlowMark (c : Char) : Bool := ",[]\x7b\x7d".toList.contains c

/-- Whether a plain scalar can start here. -/
def startsPlain (flow : Bool) (spots : List Spot) : Bool :=
  match spots with
  | [] => false
  | s :: rest =>
    if s.char = '-' then !next isBlank rest
    else if s.char = '?' || s.char = ':' then !flow && !atGap rest
    else !atGap spots && !isFlowMark s.char && !"#&*!|>'\"%@\x60".toList.contains s.char

/-- Whether a plain scalar ends here, behind a gap in it. -/
def endsPlain (flow : Bool) (least : Nat) (gap : Gap) (spots : List Spot) : Bool :=
  match spots with
  | [] => true
  | s :: rest =>
    (!gap.isNone && ((!flow && s.column < least) || atBoundary spots || s.char = '#')) ||
      (s.char = ':' && atGap rest) || (flow && isFlowMark s.char)

/-- The text of a plain scalar, whether a line ended behind it, and what comes then. Its lines are
at the least column or behind it. -/
def plainFrom (flow : Bool) (least : Nat) (text : List Char) (gap : Gap) :
    List Spot → Option (String × Bool × List Spot)
  | [] => some (String.ofList text.reverse, gap.isBroken, [])
  | s :: rest =>
    if isBlank s.char || isBreak s.char then
      if gap.isBroken && s.char = '\t' && s.column < least then none
      else plainFrom flow least text (gap.add s.char) rest
    else if endsPlain flow least gap (s :: rest) then
      some (String.ofList text.reverse, gap.isBroken, s :: rest)
    else if flow && s.char = ':' && next (fun c => c = '?' || isFlowMark c) rest then none
    else plainFrom flow least (s.char :: gap.joint ++ text) .none rest

def plain? (flow : Bool) (least : Nat) (spots : List Spot) :
    Option (Scalar × Bool × List Spot) :=
  (plainFrom flow least [] .none spots).map fun (text, broken, rest) =>
    (⟨text, .plain⟩, broken, rest)

/-! ### Quoted scalars -/

/-- The text up to a single quote, with what is behind it. A quote in the text is written twice. -/
def singleFrom (text : List Char) (gap : Gap) : List Spot → Option (String × List Spot)
  | [] => none
  | s :: rest =>
    if isBlank s.char || isBreak s.char then singleFrom text (gap.add s.char) rest
    else if atBoundary (s :: rest) then none
    else if s.char = '\'' then
      match rest with
      | [] => some (String.ofList (gap.joint ++ text).reverse, [])
      | t :: others =>
        if t.char = '\'' then singleFrom ('\'' :: gap.joint ++ text) .none others
        else some (String.ofList (gap.joint ++ text).reverse, t :: others)
    else singleFrom (s.char :: gap.joint ++ text) .none rest

/-- A character that is written after a backslash by one other. -/
def escape? : Char → Option Char
  | '0' => some '\x00'
  | 'a' => some '\x07'
  | 'b' => some '\x08'
  | 't' => some '\t'
  | '\t' => some '\t'
  | 'n' => some '\n'
  | 'v' => some '\x0b'
  | 'f' => some '\x0c'
  | 'r' => some '\r'
  | 'e' => some '\x1b'
  | ' ' => some ' '
  | '"' => some '"'
  | '/' => some '/'
  | '\\' => some '\\'
  | 'N' => some '\u0085'
  | '_' => some '\u00a0'
  | 'L' => some '\u2028'
  | 'P' => some '\u2029'
  | _ => none

/-- The number of hexadecimal digits behind such an escape. -/
def hexDigits : Char → Nat
  | 'x' => 2
  | 'u' => 4
  | 'U' => 8
  | _ => 0

inductive Escape where
  /-- Behind the backslash. -/
  | start
  /-- So many hexadecimal digits to come, and the value of those before. -/
  | digits (left value : Nat)

/-- The text up to a double quote, with what is behind it. A break behind a backslash counts for
nothing, and so do the blanks behind it. -/
def doubleFrom (text : List Char) (gap : Gap) :
    Option Escape → List Spot → Option (String × List Spot)
  | _, [] => none
  | none, s :: rest =>
    if isBlank s.char || isBreak s.char then doubleFrom text (gap.add s.char) none rest
    else if atBoundary (s :: rest) then none
    else if s.char = '"' then some (String.ofList (gap.joint ++ text).reverse, rest)
    else if s.char = '\\' then doubleFrom (gap.joint ++ text) .none (some .start) rest
    else doubleFrom (s.char :: gap.joint ++ text) .none none rest
  | some .start, s :: rest =>
    if isBreak s.char then doubleFrom text (.breaks false []) none rest
    else
      match escape? s.char with
      | some c => doubleFrom (c :: text) .none none rest
      | none =>
        if hexDigits s.char = 0 then none
        else doubleFrom text .none (some (.digits (hexDigits s.char) 0)) rest
  | some (.digits left value), s :: rest =>
    match hexValue? s.char with
    | none => none
    | some digit =>
      let value := 16 * value + digit
      if 1 < left then doubleFrom text .none (some (.digits (left - 1) value)) rest
      else if value.isValidChar then doubleFrom (.ofNat value :: text) .none none rest
      else none

/-- The scalar behind an opening quote, and what comes then. -/
def quoted? (quote : Char) (spots : List Spot) : Option (Scalar × List Spot) :=
  let result :=
    if quote = '"' then doubleFrom [] .none none spots else singleFrom [] .none spots
  result.map fun (text, rest) => (⟨text, .quoted⟩, rest)

end Jack.Yaml
