import Jack.Tree.Basic
import Jack.Tree.Stream

/-!
Parsers: functions that take a part of a syntax tree off a stream. A parser that fails leaves the
stream where it stopped, with the levels entered that it had entered by then; nothing is undone.

The grammar is written for every monad that has the steps of `Reads`.
-/

namespace Jack

/-- The steps that readers of the grammar are made of. -/
class Reads (m : Type → Type) where
  /-- Fails at the current token. -/
  fail {α : Type} (error : Token → SyntaxError) : m α
  /-- One level deeper, if a level is left. -/
  nested {α : Type} (inner : Unit → m α) : m α
  /-- The current token, left where it is. -/
  current : m Token
  /-- The token behind the current one, left where it is. -/
  behind : m Token
  /-- The span of the current token, whatever it is, which is taken. -/
  take : m Span
  /-- Takes a token of the given kind, or declines. -/
  accept? (kind : Kind) : m (Option Span)
  expect (kind : Kind) : m Span
  /-- The text of a token already taken. -/
  textOf (token : Token) : m String
  /-- Items until the reader declines. The reader takes a token for every item. -/
  many {α : Type} (item : m (Option α)) : m (List α)

abbrev Parser (α : Type) := ExceptT SyntaxError (StateM Stream) α

namespace Parser

variable {α : Type}

def fail (error : Token → SyntaxError) : Parser α := fun s => (.error (error s.cursor.current), s)

def enter : Parser Unit := fun s =>
  match s.enter with
  | .ok s' => (.ok (), s')
  | .error e => (.error e, s)

def leave : Parser Unit := fun s => (.ok (), s.leave)

/-- A failure leaves the level entered. -/
def nested (inner : Unit → Parser α) : Parser α := do
  enter
  let a ← inner ()
  leave
  return a

def current : Parser Token := fun s => (.ok s.cursor.current, s)

def behind : Parser Token := fun s => (.ok (s.cursor.peek 1), s)

def take : Parser Span := fun s =>
  let (token, s') := s.next
  (.ok token.span, s')

def accept? (kind : Kind) : Parser (Option Span) := fun s =>
  match s.accept? kind with
  | some (token, s') => (.ok (some token.span), s')
  | none => (.ok none, s)

def expect (kind : Kind) : Parser Span := fun s =>
  match s.expect kind with
  | .ok (token, s') => (.ok token.span, s')
  | .error e => (.error e, s)

def textOf (token : Token) : Parser String := fun s =>
  match token.text? s.cursor.source with
  | some text => (.ok text, s)
  | none => (.error (.unreadable token), s)

/-- The loop of `many`, with the items so far, last first, and one token for each round left. -/
def manyFrom (item : Parser (Option α)) (seen : List α) :
    List Token → Stream → Except SyntaxError (List α) × Stream
  | [], s => (.ok seen.reverse, s)
  | _ :: rounds, s =>
    match item s with
    | (.error e, s') => (.error e, s')
    | (.ok none, s') => (.ok seen.reverse, s')
    | (.ok (some a), s') => manyFrom item (a :: seen) rounds s'

/-- Each round takes a token, so the tokens ahead bound the number of rounds. -/
def many (item : Parser (Option α)) : Parser (List α) := fun s => manyFrom item [] s.cursor.ahead s

instance : Reads Parser where
  fail := fail
  nested := nested
  current := current
  behind := behind
  take := take
  accept? := accept?
  expect := expect
  textOf := textOf
  many := many

end Parser

end Jack
