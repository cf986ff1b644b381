import Jack.Token.Lexer

/-!
The characters of a configuration file, each with the place where it stands. A place is a line, a
column and the number of characters before it, all counted from zero.
-/

namespace Jack.Yaml

/-! ### Characters -/

/-- The mark of the byte order. -/
def byteOrderMark : Char := '\ufeff'

/-- Characters that a file may hold. -/
def isAllowed (c : Char) : Bool :=
  c = '\t' || c = '\n' || c = '\r' || (' ' ≤ c && c ≤ '~') || c = '\u0085' ||
    ('\u00a0' ≤ c && c ≠ '\ufffe' && c ≠ '\uffff')

def isBlank (c : Char) : Bool := c = ' ' || c = '\t'

/-- Characters that end a line, when all ends that mean the same are written as line feeds. -/
def isBreak (c : Char) : Bool := c = '\n' || c = '\u2028' || c = '\u2029'

/-- Letters, digits, the low line and the hyphen. -/
def isWord (c : Char) : Bool := isWordChar c || c = '-'

def hexValue? (c : Char) : Option Nat :=
  if isDigit c then some (c.toNat - '0'.toNat)
  else if 'a' ≤ c && c ≤ 'f' then some (c.toNat - 'a'.toNat + 10)
  else if 'A' ≤ c && c ≤ 'F' then some (c.toNat - 'A'.toNat + 10)
  else none

/-- Writes every carriage return, with or without a line feed, and every next line as a line
feed. -/
def unifyBreaks : List Char → List Char
  | [] => []
  | '\r' :: '\n' :: cs => '\n' :: unifyBreaks cs
  | c :: cs => (if c = '\r' || c = '\u0085' then '\n' else c) :: unifyBreaks cs

/-! ### Places -/

structure Spot where
  char : Char
  line : Nat
  column : Nat
  index : Nat
deriving DecidableEq, Repr

def spotsFrom (line column index : Nat) : List Char → List Spot
  | [] => []
  | c :: cs =>
    ⟨c, line, column, index⟩ ::
      if isBreak c then spotsFrom (line + 1) 0 (index + 1) cs
      else spotsFrom line (column + 1) (index + 1) cs

/-- The characters of a text with their places, unless it holds one that is not allowed. -/
def spots? (text : String) : Option (List Spot) :=
  if text.toList.all isAllowed then some (spotsFrom 0 0 0 (unifyBreaks text.toList)) else none

/-! ### What comes next -/

def chars (spots : List Spot) : String := String.ofList (spots.map Spot.char)

/-- Whether the next character is in a class. The end of the text is in none. -/
def next (p : Char → Bool) (spots : List Spot) : Bool := spots.head?.any (p ·.char)

/-- Whether a word would end here: at a blank, at a break, or at the end of the text. -/
def atGap (spots : List Spot) : Bool := spots.head?.all fun s => isBlank s.char || isBreak s.char

/-- Whether the line ends here. -/
def atLineEnd (spots : List Spot) : Bool := spots.head?.all (isBreak ·.char)

/-- Whether three characters stand alone at the start of a line. -/
def atMarker (mark : String) (spots : List Spot) : Bool :=
  spots.head?.any (·.column = 0) && chars (spots.take 3) = mark && atGap (spots.drop 3)

/-- Whether a line that starts or ends a document begins here. -/
def atBoundary (spots : List Spot) : Bool := atMarker "---" spots || atMarker "..." spots

def skipBlanks (spots : List Spot) : List Spot := spots.dropWhile (isBlank ·.char)

/-- What is behind the rest of a line that holds blanks and a comment at most. -/
def endLine? (spots : List Spot) : Option (List Spot) :=
  let rest := skipBlanks spots
  let rest := if next (· = '#') rest then rest.dropWhile (!isBreak ·.char) else rest
  if atLineEnd rest then some (rest.drop 1) else none

end Jack.Yaml
