import Jack.Token.Lexer

/-!
A cursor over the tokens of a source. It only moves forward, and never past an end-of-source token;
looking further ahead than the last token gives the last token.
-/

namespace Jack

/-- The deepest nesting of expressions, terms and statement lists. -/
def maxDepth : Nat := 128

/-- Why a token cannot stand where it does. -/
inductive SyntaxError where
  | mismatch (found : Token) (expected : Kind)
  | unexpected (found : Token) (hint : String)
  | nesting (found : Token)
  | integer (found : Token)
  /-- A token placed where the source has no such text. -/
  | unreadable (found : Token)
deriving DecidableEq, Repr

namespace SyntaxError

def found : SyntaxError → Token
  | mismatch t _ | unexpected t _ | nesting t | integer t | unreadable t => t

def message : SyntaxError → String
  | mismatch t expected =>
    s!"encountered unexpected {t.kind.describe}, expected {expected.describe}"
  | unexpected t hint => s!"encountered unexpected {t.kind.describe}, {hint}"
  | nesting _ => s!"nesting exceeds maximum depth of {maxDepth}"
  | integer _ => "invalid integer constant"
  | unreadable t => s!"{t.kind.describe} lies outside the source"

end SyntaxError

structure Cursor where
  source : String
  /-- The tokens from the current one on, without the last one of all. -/
  ahead : List Token
  /-- The last token, an end of source. -/
  last : Token
deriving Repr

namespace Cursor

/-- A cursor at the first token. Tokens that do not end with the source get its end added. -/
def ofTokens (source : String) (tokens : List Token) : Cursor :=
  match tokens.getLast? with
  | some ⟨.endOfSource, span⟩ => ⟨source, tokens.dropLast, ⟨.endOfSource, span⟩⟩
  | _ => ⟨source, tokens, ⟨.endOfSource, source.utf8ByteSize, 0⟩⟩

def peek (c : Cursor) (n : Nat) : Token := c.ahead.getD n c.last

def current (c : Cursor) : Token := c.peek 0

def atEnd (c : Cursor) : Bool := c.current.kind = .endOfSource

/-- The cursor behind the current token, or where it is at an end of source. -/
def advance (c : Cursor) : Cursor :=
  match c.ahead with
  | [] => c
  | t :: ts => if t.kind = .endOfSource then c else { c with ahead := ts }

/-- The current token and the cursor behind it, if it is of the given kind. -/
def accept? (c : Cursor) (kind : Kind) : Option (Token × Cursor) :=
  if c.current.kind = kind then some (c.current, c.advance) else none

end Cursor

end Jack
