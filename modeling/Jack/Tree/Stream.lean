import Jack.Token.Cursor

/-!
A stream of tokens: a cursor with the tokens behind it, and the levels of nesting that are entered.
-/

namespace Jack

structure Stream where
  /-- All tokens, those behind the cursor too. -/
  tokens : List Token
  cursor : Cursor
  /-- Levels of nesting entered. -/
  depth : Nat
deriving Repr

/-- The tokens from the current one on. -/
def Cursor.tokens (c : Cursor) : List Token := c.ahead ++ [c.last]

namespace Stream

def ofTokens (source : String) (tokens : List Token) : Stream :=
  let start := Cursor.ofTokens source tokens
  ⟨start.tokens, start, 0⟩

def ofSource (source : String) : Except LexError Stream := do
  return .ofTokens source (← tokenize source)

/-- How many of the tokens are behind the cursor. -/
def position (s : Stream) : Nat := s.tokens.length - s.cursor.tokens.length

/-- The token so many places ahead, or else the last one. Places are machine words, and a sum of
them that is too large for a word wraps around to the first tokens. -/
def peek (s : Stream) (n : UInt64) : Token :=
  s.tokens.getD (UInt64.ofNat s.position + n).toNat s.cursor.last

/-- The current token, which is taken unless it is an end of source. -/
def next (s : Stream) : Token × Stream := (s.cursor.current, { s with cursor := s.cursor.advance })

def accept? (s : Stream) (kind : Kind) : Option (Token × Stream) :=
  (s.cursor.accept? kind).map fun (token, after) => (token, { s with cursor := after })

def expect (s : Stream) (kind : Kind) : Except SyntaxError (Token × Stream) :=
  match s.accept? kind with
  | some result => .ok result
  | none => .error (.mismatch s.cursor.current kind)

def enter (s : Stream) : Except SyntaxError Stream :=
  if s.depth < maxDepth then .ok { s with depth := s.depth + 1 }
  else .error (.nesting s.cursor.current)

def leave (s : Stream) : Stream := { s with depth := s.depth - 1 }

def unexpected (s : Stream) (hint : String) : SyntaxError := .unexpected s.cursor.current hint

end Stream

end Jack
