import Jack.Token.Basic

/-!
Syntax trees. A tree holds every token of its text: a name or constant with its value, and of a
keyword or a punctuation mark, whose text is fixed by its place, the span.
-/

namespace Jack

structure Ident where
  name : String
  span : Span
deriving DecidableEq, Repr

/-- Items with a comma between any two of them. -/
structure Separated (α : Type) where
  head : α
  /-- Each further item behind the span of its comma. -/
  tail : List (Span × α)

def Separated.toList {α : Type} (xs : Separated α) : List α := xs.head :: xs.tail.map (·.2)

inductive Primitive where
  | int | char | boolean
deriving DecidableEq, Repr

namespace Primitive

def keyword : Primitive → Keyword
  | int => .kwInt
  | char => .kwChar
  | boolean => .kwBoolean

def ofKeyword? : Keyword → Option Primitive
  | .kwInt => some int
  | .kwChar => some char
  | .kwBoolean => some boolean
  | _ => none

end Primitive

inductive VarType where
  | primitive (type : Primitive) (span : Span)
  | object (name : Ident)
deriving DecidableEq, Repr

namespace VarType

def name : VarType → String
  | primitive type _ => type.keyword.text
  | object name => name.name

/-- Whether a token of this kind can start a type. -/
def starts : Kind → Bool
  | .keyword k => (Primitive.ofKeyword? k).isSome
  | .identifier => true
  | _ => false

end VarType

inductive ReturnType where
  | void (span : Span)
  | value (type : VarType)
deriving DecidableEq, Repr

inductive BinaryOp where
  | add | sub | mul | div | and | or | lt | gt | eq
deriving DecidableEq, Repr

namespace BinaryOp

def symbol : BinaryOp → Symbol
  | add => .plus
  | sub => .minus
  | mul => .star
  | div => .slash
  | and => .ampersand
  | or => .bar
  | lt => .less
  | gt => .greater
  | eq => .equal

def ofSymbol? : Symbol → Option BinaryOp
  | .plus => some add
  | .minus => some sub
  | .star => some mul
  | .slash => some div
  | .ampersand => some and
  | .bar => some or
  | .less => some lt
  | .greater => some gt
  | .equal => some eq
  | _ => none

def ofKind? : Kind → Option BinaryOp
  | .symbol s => ofSymbol? s
  | _ => none

end BinaryOp

inductive UnaryOp where
  | neg | not
deriving DecidableEq, Repr

def UnaryOp.symbol : UnaryOp → Symbol
  | neg => .minus
  | not => .tilde

/-- Constants that are spelled by a keyword. -/
inductive NamedConstant where
  | true | false | null | this
deriving DecidableEq, Repr

namespace NamedConstant

def keyword : NamedConstant → Keyword
  | .true => .kwTrue
  | .false => .kwFalse
  | .null => .kwNull
  | .this => .kwThis

def ofKind? : Kind → Option NamedConstant
  | .keyword .kwTrue => some .true
  | .keyword .kwFalse => some .false
  | .keyword .kwNull => some .null
  | .keyword .kwThis => some .this
  | _ => none

end NamedConstant

/-! ### Expressions -/

mutual

/-- Terms joined by operators, without precedence. -/
inductive Expr where
  | mk (head : Term) (tail : OpTerms)

inductive OpTerms where
  | nil
  | cons (op : BinaryOp) (opSpan : Span) (term : Term) (rest : OpTerms)

inductive Term where
  | integer (value : Nat) (span : Span)
  | string (value : String) (span : Span)
  | named (value : NamedConstant) (span : Span)
  | paren (left : Span) (expr : Expr) (right : Span)
  | unary (op : UnaryOp) (opSpan : Span) (term : Term)
  | var (name : Ident)
  | element (name : Ident) (index : Index)
  | call (call : Call)

/-- An expression in brackets. -/
inductive Index where
  | mk (left : Span) (expr : Expr) (right : Span)

/-- A call, with the receiver before a dot if there is one. Whether a receiver is a variable or a
class is decided when code is generated. -/
inductive Call where
  | mk (receiver : Option (Ident × Span)) (name : Ident) (left : Span) (args : Args) (right : Span)

inductive Args where
  | none
  | some (head : Expr) (tail : MoreArgs)

inductive MoreArgs where
  | nil
  | cons (comma : Span) (arg : Expr) (rest : MoreArgs)

end

def OpTerms.ofList (xs : List (BinaryOp × Span × Term)) : OpTerms :=
  xs.foldr (fun (op, opSpan, term) rest => .cons op opSpan term rest) .nil

def MoreArgs.ofList (xs : List (Span × Expr)) : MoreArgs :=
  xs.foldr (fun (comma, arg) rest => .cons comma arg rest) .nil

def Args.ofSeparated : Option (Separated Expr) → Args
  | .none => .none
  | .some xs => .some xs.head (.ofList xs.tail)

/-- The expressions behind `seen`, which holds the ones before, last first. -/
def MoreArgs.toListFrom (seen : List Expr) : MoreArgs → List Expr
  | .nil => seen.reverse
  | .cons _ arg rest => toListFrom (arg :: seen) rest

def Args.toList : Args → List Expr
  | .none => []
  | .some head tail => tail.toListFrom [head]

/-! ### Statements -/

mutual

inductive Stmt where
  | assign (keyword : Span) (target : Ident) (index : Option Index) (equal : Span) (value : Expr)
    (semicolon : Span)
  | branch (keyword left : Span) (condition : Expr) (right : Span) (yes : Block) (no : Otherwise)
  | loop (keyword left : Span) (condition : Expr) (right : Span) (body : Block)
  | perform (keyword : Span) (call : Call) (semicolon : Span)
  | finish (keyword : Span) (value : Option Expr) (semicolon : Span)

/-- The else branch, if there is one. -/
inductive Otherwise where
  | none
  | some (keyword : Span) (block : Block)

inductive Block where
  | mk (left : Span) (body : Stmts) (right : Span)

inductive Stmts where
  | nil
  | cons (stmt : Stmt) (rest : Stmts)

end

def Stmts.ofList (xs : List Stmt) : Stmts := xs.foldr .cons .nil

/-! ### Declarations -/

inductive ClassVarKind where
  | static | field
deriving DecidableEq, Repr

namespace ClassVarKind

def keyword : ClassVarKind → Keyword
  | static => .kwStatic
  | field => .kwField

def ofKind? : Kind → Option ClassVarKind
  | .keyword .kwStatic => some static
  | .keyword .kwField => some field
  | _ => none

end ClassVarKind

inductive SubroutineKind where
  | constructor | function | method
deriving DecidableEq, Repr

namespace SubroutineKind

def keyword : SubroutineKind → Keyword
  | constructor => .kwConstructor
  | function => .kwFunction
  | method => .kwMethod

def ofKind? : Kind → Option SubroutineKind
  | .keyword .kwConstructor => some constructor
  | .keyword .kwFunction => some function
  | .keyword .kwMethod => some method
  | _ => none

end SubroutineKind

structure ClassVarDec where
  kind : ClassVarKind
  keyword : Span
  type : VarType
  names : Separated Ident
  semicolon : Span

structure VarDec where
  keyword : Span
  type : VarType
  names : Separated Ident
  semicolon : Span

structure Param where
  type : VarType
  name : Ident

structure Body where
  left : Span
  vars : List VarDec
  statements : Stmts
  right : Span

/-- The number of names that the variable declarations declare. -/
def Body.localCount (body : Body) : Nat :=
  (body.vars.flatMap fun var => var.names.toList).length

structure Subroutine where
  kind : SubroutineKind
  keyword : Span
  returns : ReturnType
  name : Ident
  left : Span
  params : Option (Separated Param)
  right : Span
  body : Body

structure ClassDecl where
  keyword : Span
  name : Ident
  left : Span
  vars : List ClassVarDec
  subroutines : List Subroutine
  right : Span

end Jack
