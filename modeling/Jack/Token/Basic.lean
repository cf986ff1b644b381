import Jack.Text.Span

/-!
Tokens of the Jack language: their kinds, the words and characters that spell them, and the names
under which they appear in messages and listings.
-/

namespace Jack

inductive Keyword where
  | kwClass | kwConstructor | kwFunction | kwMethod | kwField | kwStatic | kwVar
  | kwInt | kwChar | kwBoolean | kwVoid
  | kwTrue | kwFalse | kwNull | kwThis
  | kwLet | kwDo | kwIf | kwElse | kwWhile | kwReturn
deriving DecidableEq, Repr

namespace Keyword

def all : List Keyword :=
  [kwClass, kwConstructor, kwFunction, kwMethod, kwField, kwStatic, kwVar,
    kwInt, kwChar, kwBoolean, kwVoid, kwTrue, kwFalse, kwNull, kwThis,
    kwLet, kwDo, kwIf, kwElse, kwWhile, kwReturn]

def text : Keyword → String
  | kwClass => "class"
  | kwConstructor => "constructor"
  | kwFunction => "function"
  | kwMethod => "method"
  | kwField => "field"
  | kwStatic => "static"
  | kwVar => "var"
  | kwInt => "int"
  | kwChar => "char"
  | kwBoolean => "boolean"
  | kwVoid => "void"
  | kwTrue => "true"
  | kwFalse => "false"
  | kwNull => "null"
  | kwThis => "this"
  | kwLet => "let"
  | kwDo => "do"
  | kwIf => "if"
  | kwElse => "else"
  | kwWhile => "while"
  | kwReturn => "return"

def ofText? (word : String) : Option Keyword := all.find? (·.text == word)

theorem ofText?_text (k : Keyword) : ofText? k.text = some k := by cases k <;> decide

theorem ofText?_eq_some_iff {word : String} {k : Keyword} : ofText? word = some k ↔ k.text = word :=
  ⟨fun h => by simpa using List.find?_some h, fun h => h ▸ ofText?_text k⟩

end Keyword

/-- Punctuation and operators, one character each. -/
inductive Symbol where
  | leftBrace | rightBrace | leftParen | rightParen | leftBracket | rightBracket
  | dot | comma | semicolon
  | plus | minus | star | slash | ampersand | bar | less | greater | equal | tilde
deriving DecidableEq, Repr

namespace Symbol

def all : List Symbol :=
  [leftBrace, rightBrace, leftParen, rightParen, leftBracket, rightBracket, dot, comma, semicolon,
    plus, minus, star, slash, ampersand, bar, less, greater, equal, tilde]

def char : Symbol → Char
  | leftBrace => '\x7b'
  | rightBrace => '\x7d'
  | leftParen => '('
  | rightParen => ')'
  | leftBracket => '['
  | rightBracket => ']'
  | dot => '.'
  | comma => ','
  | semicolon => ';'
  | plus => '+'
  | minus => '-'
  | star => '*'
  | slash => '/'
  | ampersand => '&'
  | bar => '|'
  | less => '<'
  | greater => '>'
  | equal => '='
  | tilde => '~'

def ofChar? (c : Char) : Option Symbol := all.find? (·.char == c)

theorem ofChar?_char (s : Symbol) : ofChar? s.char = some s := by cases s <;> decide

theorem ofChar?_eq_some_iff {c : Char} {s : Symbol} : ofChar? c = some s ↔ s.char = c :=
  ⟨fun h => by simpa using List.find?_some h, fun h => h ▸ ofChar?_char s⟩

end Symbol

inductive Kind where
  | keyword (k : Keyword)
  | symbol (s : Symbol)
  | integer
  | string
  | identifier
  | endOfSource
deriving DecidableEq, Repr

namespace Kind

/-- The element name of a token of this kind in a listing. -/
def tag : Kind → String
  | keyword _ => "keyword"
  | symbol _ => "symbol"
  | integer => "integerConstant"
  | string => "stringConstant"
  | identifier => "identifier"
  | endOfSource => "eos"

/-- How a message names a token of this kind. -/
def describe : Kind → String
  | keyword k => s!"keyword '{k.text}'"
  | symbol s => s!"symbol '{s.char}'"
  | integer => "integer constant"
  | string => "string constant"
  | identifier => "identifier"
  | endOfSource => "end of source"

end Kind

structure Token where
  kind : Kind
  span : Span
deriving DecidableEq, Repr

/-- The text between two quotes; a text that is not quoted on both sides stays as it is. -/
def unquote (text : String) : String :=
  match text.toList with
  | '"' :: cs =>
    match cs.reverse with
    | '"' :: body => String.ofList body.reverse
    | _ => text
  | _ => text

namespace Token

/-- The value of a token of a source: its fragment, for a string constant without the quotes. -/
def text? (token : Token) (source : String) : Option String :=
  match token.kind with
  | .string => (token.span.fragment? source).map unquote
  | _ => token.span.fragment? source

end Token

end Jack
