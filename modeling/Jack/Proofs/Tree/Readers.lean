import Jack.Tree.Grammar

/-!
Readers: the grammar without a depth. A reader is given the number of levels that are left. If it
fails it tells where it stopped and how many levels it had entered by then.
-/

namespace Jack

structure Halt where
  error : SyntaxError
  cursor : Cursor
  /-- Levels of nesting entered and not left. -/
  opened : Nat

abbrev Reader (α : Type) := StateT Cursor (Except Halt) α

namespace Reader

variable {α : Type}

def fail (error : Token → SyntaxError) : Reader α :=
  fun c => .error ⟨error c.current, c, 0⟩

/-- A failure has one more level entered then. -/
def nested (inner : Reader α) : Reader α := fun c =>
  match inner c with
  | .ok result => .ok result
  | .error halt => .error { halt with opened := halt.opened + 1 }

def current : Reader Token := fun c => .ok (c.current, c)

def behind : Reader Token := fun c => .ok (c.peek 1, c)

def take : Reader Span := fun c => .ok (c.current.span, c.advance)

def accept? (kind : Kind) : Reader (Option Span) := fun c =>
  match c.accept? kind with
  | some (token, after) => .ok (some token.span, after)
  | none => .ok (none, c)

def expect (kind : Kind) : Reader Span := fun c =>
  match c.accept? kind with
  | some (token, after) => .ok (token.span, after)
  | none => .error ⟨.mismatch c.current kind, c, 0⟩

def textOf (token : Token) : Reader String := fun c =>
  match token.text? c.source with
  | some text => .ok (text, c)
  | none => .error ⟨.unreadable token, c, 0⟩

/-- The loop of `many`, with the items so far, last first, and one token for each round left. -/
def manyFrom (item : Reader (Option α)) (seen : List α) :
    List Token → Cursor → Except Halt (List α × Cursor)
  | [], c => .ok (seen.reverse, c)
  | _ :: rounds, c =>
    match item c with
    | .error halt => .error halt
    | .ok (none, after) => .ok (seen.reverse, after)
    | .ok (some a, after) => manyFrom item (a :: seen) rounds after

def many (item : Reader (Option α)) : Reader (List α) := fun c => manyFrom item [] c.ahead c

instance : Reads Reader where
  fail := fail
  nested := fun inner => nested (inner ())
  current := current
  behind := behind
  take := take
  accept? := accept?
  expect := expect
  textOf := textOf
  many := many

/-! ### The readers of the grammar -/

abbrev unexpected (hint : String) : Reader α := Grammar.unexpected hint
abbrev tooDeep : Reader α := Grammar.tooDeep

theorem unexpected_eq (hint : String) :
    (unexpected hint : Reader α) = fail (.unexpected · hint) := rfl

theorem tooDeep_eq : (tooDeep : Reader α) = fail .nesting := rfl

section
variable (item : Reader (Option α))

abbrev nextItem : Reader (Option (Span × α)) := Grammar.nextItem item
abbrev separated? : Reader (Option (Separated α)) := Grammar.separated? item
abbrev separated : Reader (Separated α) := Grammar.separated item

end

abbrev ident : Reader Ident := Grammar.ident
abbrev integer : Reader (Nat × Span) := Grammar.integer
abbrev string : Reader (String × Span) := Grammar.string
abbrev namedConstant : Reader (NamedConstant × Span) := Grammar.namedConstant
abbrev varType : Reader VarType := Grammar.varType
abbrev returnType : Reader ReturnType := Grammar.returnType

section
variable (expr : Reader Expr) (term : Reader Term) (statements : Reader Stmts)

abbrev opTerm? : Reader (Option (BinaryOp × Span × Term)) := Grammar.opTerm? term
abbrev exprWith : Reader Expr := Grammar.exprWith term
abbrev argument? : Reader (Option Expr) := Grammar.argument? expr
abbrev argsWith : Reader Args := Grammar.argsWith expr
abbrev receiver? : Reader (Option (Ident × Span)) := Grammar.receiver?
abbrev callWith : Reader Call := Grammar.callWith expr
abbrev indexWith : Reader Index := Grammar.indexWith expr
abbrev nameTerm : Reader Term := Grammar.nameTerm expr
abbrev parenTerm : Reader Term := Grammar.parenTerm expr
abbrev unaryTerm (op : UnaryOp) : Reader Term := Grammar.unaryTerm term op
abbrev constantTerm (k : Keyword) : Reader Term := Grammar.constantTerm k
abbrev termWith : Reader Term := Grammar.termWith expr term
abbrev assignment : Reader Stmt := Grammar.assignment expr
abbrev blockWith : Reader Block := Grammar.blockWith statements
abbrev otherwise : Reader Otherwise := Grammar.otherwise statements
abbrev branch : Reader Stmt := Grammar.branch expr statements
abbrev loop : Reader Stmt := Grammar.loop expr statements
abbrev perform : Reader Stmt := Grammar.perform expr
abbrev finish : Reader Stmt := Grammar.finish expr
abbrev statement? : Reader (Option Stmt) := Grammar.statement? expr statements
abbrev statementsWith : Reader Stmts := Grammar.statementsWith expr statements

end

abbrev expr (levels : Nat) : Reader Expr := Grammar.expr levels
abbrev term (levels : Nat) : Reader Term := Grammar.term levels
abbrev statements (levels : Nat) : Reader Stmts := Grammar.statements levels
abbrev names : Reader (Separated Ident) := Grammar.names
abbrev classVar? : Reader (Option ClassVarDec) := Grammar.classVar?
abbrev var? : Reader (Option VarDec) := Grammar.var?
abbrev param? : Reader (Option Param) := Grammar.param?
abbrev params : Reader (Option (Separated Param)) := Grammar.params
abbrev body (levels : Nat) : Reader Body := Grammar.body levels
abbrev subroutine? (levels : Nat) : Reader (Option Subroutine) := Grammar.subroutine? levels
abbrev classDecl (levels : Nat) : Reader ClassDecl := Grammar.classDecl levels
abbrev unit (levels : Nat) : Reader ClassDecl := Grammar.unit levels

end Reader

end Jack
