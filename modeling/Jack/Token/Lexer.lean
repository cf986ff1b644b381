import Jack.Token.Basic
import Jack.Text.Quoted

/-!
The lexer: reads the next token of a source, going over blanks and comments, and goes on after an
error behind the text that it rejected.

`Lexer.next_shrinks` says that every token but the last takes text away, which is why `tokenize`
ends.
-/

namespace Jack

/-- Why a piece of text is no token. -/
inductive LexFault where
  | unknownCharacter (c : Char)
  | unterminatedString
  | unterminatedComment
  | integerOverflow
  | malformedNumber
deriving DecidableEq, Repr

structure LexError where
  fault : LexFault
  span : Span
deriving DecidableEq, Repr

/-- The largest integer constant. -/
def maxInteger : Nat := 32767

def LexFault.message : LexFault → String
  | .unknownCharacter c => "unknown character " ++ quoteChar c
  | .unterminatedString => "unterminated string constant"
  | .unterminatedComment => "unterminated block comment"
  | .integerOverflow => s!"integer constant exceeds maximum of {maxInteger}"
  | .malformedNumber => "malformed integer constant"

def LexError.message (e : LexError) : String := e.fault.message

/-! ### Character classes -/

def isBlank (c : Char) : Bool :=
  c = ' ' || c = '\t' || c = '\n' || c = '\x0c' || c = '\r' || c = '\u00a0' || c = '\ufeff'

def isDigit (c : Char) : Bool := '0' ≤ c && c ≤ '9'

def isLetter (c : Char) : Bool := ('a' ≤ c && c ≤ 'z') || ('A' ≤ c && c ≤ 'Z') || c = '_'

def isWordChar (c : Char) : Bool := isLetter c || isDigit c

/-- Characters that may stand inside a string constant. -/
def isStringChar (c : Char) : Bool := c ≠ '"' && c ≠ '\n' && c ≠ '\r'

/-- The number that the digits denote in base ten. -/
def decimalValue (digits : List Char) : Nat :=
  digits.foldl (fun n d => 10 * n + (d.toNat - '0'.toNat)) 0

/-! ### Gaps between tokens -/

/-- A text not yet read and the byte at which it starts. -/
structure Lexer where
  pos : Nat
  rest : List Char
deriving Repr

/-- Where in a gap the lexer is: between comments, in a line comment, or in a block comment that
started at the given byte. -/
inductive Gap where
  | blanks
  | line
  | block (start : Nat)

/-- Goes over blanks and comments. A line comment ends before its line feed, a block comment after
the first `*/` behind its `/*`. -/
def skipGap : Gap → Nat → List Char → Except LexError Lexer
  | .blanks, pos, '/' :: '/' :: cs => skipGap .line (pos + 2) cs
  | .blanks, pos, '/' :: '*' :: cs => skipGap (.block pos) (pos + 2) cs
  | .blanks, pos, c :: cs =>
    if isBlank c then skipGap .blanks (pos + c.utf8Size) cs else .ok ⟨pos, c :: cs⟩
  | .line, pos, c :: cs =>
    if c = '\n' then skipGap .blanks (pos + 1) cs else skipGap .line (pos + c.utf8Size) cs
  | .block _, pos, '*' :: '/' :: cs => skipGap .blanks (pos + 2) cs
  | .block start, pos, c :: cs => skipGap (.block start) (pos + c.utf8Size) cs
  | .block start, pos, [] => .error ⟨.unterminatedComment, ⟨start, pos - start⟩⟩
  | .blanks, pos, [] => .ok ⟨pos, []⟩
  | .line, pos, [] => .ok ⟨pos, []⟩

/-! ### One token -/

/-- The lexer behind `lexeme`, with a token of that extent. -/
def accept (kind : Kind) (pos : Nat) (lexeme rest : List Char) : Except LexError Token × Lexer :=
  (.ok ⟨kind, pos, byteLength lexeme⟩, ⟨pos + byteLength lexeme, rest⟩)

/-- The lexer behind `lexeme`, with an error of that extent. -/
def reject (fault : LexFault) (pos : Nat) (lexeme rest : List Char) :
    Except LexError Token × Lexer :=
  (.error ⟨fault, pos, byteLength lexeme⟩, ⟨pos + byteLength lexeme, rest⟩)

/-- A string constant, its first quote already read. -/
def scanString (pos : Nat) (cs : List Char) : Except LexError Token × Lexer :=
  let body := cs.takeWhile isStringChar
  match cs.dropWhile isStringChar with
  | '"' :: rest => accept .string pos ('"' :: body ++ ['"']) rest
  | rest => reject .unterminatedString pos ('"' :: body) rest

/-- An integer constant. A word right behind its digits spoils it as a whole. -/
def scanNumber (pos : Nat) (cs : List Char) : Except LexError Token × Lexer :=
  let digits := cs.takeWhile isDigit
  let rest := cs.dropWhile isDigit
  let word := rest.takeWhile isWordChar
  if word ≠ [] then reject .malformedNumber pos (digits ++ word) (rest.dropWhile isWordChar)
  else if decimalValue digits ≤ maxInteger then accept .integer pos digits rest
  else reject .integerOverflow pos digits rest

def scanWord (pos : Nat) (cs : List Char) : Except LexError Token × Lexer :=
  let word := cs.takeWhile isWordChar
  let kind := match Keyword.ofText? (String.ofList word) with
    | some k => .keyword k
    | none => .identifier
  accept kind pos word (cs.dropWhile isWordChar)

/-- The token at the head of a text that starts with no blank and no comment. -/
def scan (pos : Nat) : List Char → Except LexError Token × Lexer
  | [] => accept .endOfSource pos [] []
  | c :: cs =>
    if c = '"' then scanString pos cs
    else if isDigit c then scanNumber pos (c :: cs)
    else if isLetter c then scanWord pos (c :: cs)
    else match Symbol.ofChar? c with
      | some s => accept (.symbol s) pos [c] cs
      | none => reject (.unknownCharacter c) pos [c] cs

namespace Lexer

def ofSource (source : String) : Lexer := ⟨0, source.toList⟩

/-- The next token or error, and the lexer behind it. At the end of the source the token is
`endOfSource`, time and again. -/
def next (lexer : Lexer) : Except LexError Token × Lexer :=
  match skipGap .blanks lexer.pos lexer.rest with
  | .ok start => scan start.pos start.rest
  | .error e => (.error e, ⟨e.span.stop, []⟩)

theorem skipGap_shrinks {gap : Gap} {pos : Nat} {cs : List Char} {lexer : Lexer}
    (h : skipGap gap pos cs = .ok lexer) : lexer.rest.length ≤ cs.length := by
  fun_induction skipGap gap pos cs <;> grind

theorem length_dropWhile_le (p : Char → Bool) (cs : List Char) :
    (cs.dropWhile p).length ≤ cs.length :=
  (List.dropWhile_suffix p).length_le

theorem scan_shrinks {pos : Nat} {cs : List Char} {token : Token} {after : Lexer}
    (h : scan pos cs = (.ok token, after)) (ht : token.kind ≠ .endOfSource) :
    after.rest.length < cs.length := by
  cases cs with
  | nil => simp only [scan, accept, Prod.mk.injEq, Except.ok.injEq] at h; grind
  | cons c cs =>
    have hs := length_dropWhile_le isStringChar cs
    have hd := length_dropWhile_le isDigit cs
    have hw := length_dropWhile_le isWordChar cs
    simp only [scan] at h
    split at h
    · simp only [scanString] at h
      split at h
      · rename_i heq; simp only [accept] at h; grind
      · simp [reject] at h
    · split at h
      · rename_i hdig
        simp only [scanNumber, List.dropWhile_cons, hdig, if_true] at h
        split at h
        · simp [reject] at h
        · split at h
          · simp only [accept] at h; grind
          · simp [reject] at h
      · split at h
        · rename_i hlet
          have hword : isWordChar c = true := by simp [isWordChar, hlet]
          simp only [scanWord, List.dropWhile_cons, hword, if_true, accept] at h
          grind
        · split at h
          · simp only [accept] at h; grind
          · simp [reject] at h

/-- A token other than the end of the source takes text away. -/
theorem next_shrinks {lexer after : Lexer} {token : Token} (h : lexer.next = (.ok token, after))
    (ht : token.kind ≠ .endOfSource) : after.rest.length < lexer.rest.length := by
  simp only [next] at h
  split at h
  · rename_i start hstart
    exact Nat.lt_of_lt_of_le (scan_shrinks h ht) (skipGap_shrinks hstart)
  · simp at h

/-- The tokens up to the end of the source or the first error, put before `seen`, last first. -/
def results (lexer : Lexer) (seen : List (Except LexError Token)) : List (Except LexError Token) :=
  match h : lexer.next with
  | (.error e, _) => (.error e :: seen).reverse
  | (.ok token, after) =>
    if ht : token.kind = .endOfSource then (.ok token :: seen).reverse
    else
      have := next_shrinks h ht
      results after (.ok token :: seen)
termination_by lexer.rest.length

end Lexer

/-- All that the lexer finds in a source, up to the end or the first error. -/
def lexemes (source : String) : List (Except LexError Token) :=
  (Lexer.ofSource source).results []

/-- The tokens of a source, the last one its end, or the first error. -/
def tokenize (source : String) : Except LexError (List Token) :=
  (lexemes source).mapM id

end Jack
