import Jack.Tree.Parser

/-!
A reader for each part of the grammar. Readers that may decline answer `none` and leave the cursor
where it is when the current token cannot start their part.

Expressions, terms and statement lists each stand one level deeper than what holds them. Their
readers count down the levels that they may use, and the readers for what lies between take them as
parameters.
-/

namespace Jack

/-- The number below 65536 that a text denotes: digits, with a plus sign or without. -/
def wordValue? (text : String) : Option Nat :=
  let digits := match text.toList with
    | '+' :: cs => cs
    | cs => cs
  if digits ≠ [] && digits.all isDigit && decimalValue digits < 65536 then
    some (decimalValue digits)
  else none

namespace Grammar

open Reads

variable {m : Type → Type} [Monad m] [Reads m] {α : Type}

/-- Fails at a token that cannot start what the hint says. -/
def unexpected (hint : String) : m α := fail (.unexpected · hint)

def tooDeep : m α := fail .nesting

/-! ### Separated items -/

/-- A comma and the item that has to follow it, or neither. -/
def nextItem (item : m (Option α)) : m (Option (Span × α)) := do
  match ← accept? (.symbol .comma) with
  | none => return none
  | some comma =>
    match ← item with
    | some a => return some (comma, a)
    | none => unexpected "expected item after delimiter"

def separated? (item : m (Option α)) : m (Option (Separated α)) := do
  match ← item with
  | none => return none
  | some head => return some ⟨head, ← many (nextItem item)⟩

def separated (item : m (Option α)) : m (Separated α) := do
  match ← separated? item with
  | some items => return items
  | none => unexpected "expected at least one item"

/-! ### Names and constants -/

def ident : m Ident := do
  let span ← expect .identifier
  return ⟨← textOf ⟨.identifier, span⟩, span⟩

def integer : m (Nat × Span) := do
  let span ← expect .integer
  match wordValue? (← textOf ⟨.integer, span⟩) with
  | some value => return (value, span)
  | none => fail fun _ => .integer ⟨.integer, span⟩

def string : m (String × Span) := do
  let span ← expect .string
  return (← textOf ⟨.string, span⟩, span)

def namedConstant : m (NamedConstant × Span) := do
  match NamedConstant.ofKind? (← current).kind with
  | some value => return (value, ← take)
  | none => unexpected "expected keyword constant"

/-! ### Types -/

def varType : m VarType := do
  match (← current).kind with
  | .identifier => return .object (← ident)
  | .keyword k =>
    match Primitive.ofKeyword? k with
    | some type => return .primitive type (← take)
    | none => unexpected "expected type 'int', 'char', 'boolean' or a class name"
  | _ => unexpected "expected type 'int', 'char', 'boolean' or a class name"

def returnType : m ReturnType := do
  match ← accept? (.keyword .kwVoid) with
  | some span => return .void span
  | none => return .value (← varType)

/-! ### Expressions -/

section
variable (expr : m Expr) (term : m Term)

/-- An operator and the term behind it, or neither. -/
def opTerm? : m (Option (BinaryOp × Span × Term)) := do
  match BinaryOp.ofKind? (← current).kind with
  | some op =>
    let span ← take
    return some (op, span, ← term)
  | none => return none

def exprWith : m Expr := do
  let head ← term
  return .mk head (.ofList (← many (opTerm? term)))

def argument? : m (Option Expr) := do
  if (← current).kind = .symbol .rightParen then return none
  else return some (← expr)

def argsWith : m Args := do
  return .ofSeparated (← separated? (argument? expr))

def receiver? : m (Option (Ident × Span)) := do
  if (← behind).kind = .symbol .dot then
    let name ← ident
    return some (name, ← expect (.symbol .dot))
  else return none

def callWith : m Call := do
  let receiver ← receiver?
  let name ← ident
  let left ← expect (.symbol .leftParen)
  let args ← argsWith expr
  let right ← expect (.symbol .rightParen)
  return .mk receiver name left args right

def indexWith : m Index := do
  let left ← expect (.symbol .leftBracket)
  let e ← expr
  let right ← expect (.symbol .rightBracket)
  return .mk left e right

/-- A term that starts with a name: the token behind the name tells which. -/
def nameTerm : m Term := do
  match (← behind).kind with
  | .symbol .leftParen => return .call (← callWith expr)
  | .symbol .dot => return .call (← callWith expr)
  | .symbol .leftBracket =>
    let name ← ident
    return .element name (← indexWith expr)
  | _ => return .var (← ident)

def parenTerm : m Term := do
  let left ← take
  let e ← expr
  let right ← expect (.symbol .rightParen)
  return .paren left e right

def unaryTerm (op : UnaryOp) : m Term := do
  let span ← take
  return .unary op span (← term)

def constantTerm (k : Keyword) : m Term := do
  match NamedConstant.ofKind? (.keyword k) with
  | some value => return .named value (← take)
  | none => unexpected "expected term"

def termWith : m Term := do
  match (← current).kind with
  | .integer =>
    let (value, span) ← integer
    return .integer value span
  | .string =>
    let (value, span) ← string
    return .string value span
  | .keyword k => constantTerm k
  | .symbol .leftParen => parenTerm expr
  | .symbol .minus => unaryTerm term .neg
  | .symbol .tilde => unaryTerm term .not
  | .identifier => nameTerm expr
  | _ => unexpected "expected term"

end

mutual

def expr : Nat → m Expr
  | 0 => tooDeep
  | levels + 1 => nested fun _ => exprWith (term levels)

def term : Nat → m Term
  | 0 => tooDeep
  | levels + 1 => nested fun _ => termWith (expr levels) (term levels)

end

/-! ### Statements -/

section
variable (expr : m Expr) (statements : m Stmts)

def assignment : m Stmt := do
  let keyword ← expect (.keyword .kwLet)
  let target ← ident
  let index ← if (← current).kind = .symbol .leftBracket then some <$> indexWith expr else pure none
  let equal ← expect (.symbol .equal)
  let value ← expr
  let semicolon ← expect (.symbol .semicolon)
  return .assign keyword target index equal value semicolon

def blockWith : m Block := do
  let left ← expect (.symbol .leftBrace)
  let body ← statements
  let right ← expect (.symbol .rightBrace)
  return .mk left body right

def otherwise : m Otherwise := do
  match ← accept? (.keyword .kwElse) with
  | some keyword => return .some keyword (← blockWith statements)
  | none => return .none

def branch : m Stmt := do
  let keyword ← expect (.keyword .kwIf)
  let left ← expect (.symbol .leftParen)
  let condition ← expr
  let right ← expect (.symbol .rightParen)
  let yes ← blockWith statements
  return .branch keyword left condition right yes (← otherwise statements)

def loop : m Stmt := do
  let keyword ← expect (.keyword .kwWhile)
  let left ← expect (.symbol .leftParen)
  let condition ← expr
  let right ← expect (.symbol .rightParen)
  return .loop keyword left condition right (← blockWith statements)

def perform : m Stmt := do
  let keyword ← expect (.keyword .kwDo)
  let call ← callWith expr
  return .perform keyword call (← expect (.symbol .semicolon))

def finish : m Stmt := do
  let keyword ← expect (.keyword .kwReturn)
  let value ← if (← current).kind = .symbol .semicolon then pure none else some <$> expr
  return .finish keyword value (← expect (.symbol .semicolon))

def statement? : m (Option Stmt) := do
  match (← current).kind with
  | .keyword .kwLet => some <$> assignment expr
  | .keyword .kwIf => some <$> branch expr statements
  | .keyword .kwWhile => some <$> loop expr statements
  | .keyword .kwDo => some <$> perform expr
  | .keyword .kwReturn => some <$> finish expr
  | _ => return none

def statementsWith : m Stmts := do
  return .ofList (← many (statement? expr statements))

end

def statements : Nat → m Stmts
  | 0 => tooDeep
  | levels + 1 => nested fun _ => statementsWith (expr levels) (statements levels)

/-! ### Declarations -/

/-- One or more names. -/
def names : m (Separated Ident) := separated (some <$> ident)

def classVar? : m (Option ClassVarDec) := do
  match ClassVarKind.ofKind? (← current).kind with
  | some kind =>
    let keyword ← take
    let type ← varType
    let names ← names
    let semicolon ← expect (.symbol .semicolon)
    return some ⟨kind, keyword, type, names, semicolon⟩
  | none => return none

def var? : m (Option VarDec) := do
  match ← accept? (.keyword .kwVar) with
  | some keyword =>
    let type ← varType
    let names ← names
    let semicolon ← expect (.symbol .semicolon)
    return some ⟨keyword, type, names, semicolon⟩
  | none => return none

def param? : m (Option Param) := do
  if VarType.starts (← current).kind then
    let type ← varType
    return some ⟨type, ← ident⟩
  else return none

def params : m (Option (Separated Param)) := separated? param?

def body (levels : Nat) : m Body := do
  let left ← expect (.symbol .leftBrace)
  let vars ← many var?
  let statements ← statements levels
  let right ← expect (.symbol .rightBrace)
  return ⟨left, vars, statements, right⟩

def subroutine? (levels : Nat) : m (Option Subroutine) := do
  match SubroutineKind.ofKind? (← current).kind with
  | some kind =>
    let keyword ← take
    let returns ← returnType
    let name ← ident
    let left ← expect (.symbol .leftParen)
    let params ← params
    let right ← expect (.symbol .rightParen)
    return some ⟨kind, keyword, returns, name, left, params, right, ← body levels⟩
  | none => return none

def classDecl (levels : Nat) : m ClassDecl := do
  let keyword ← expect (.keyword .kwClass)
  let name ← ident
  let left ← expect (.symbol .leftBrace)
  let vars ← many classVar?
  let subroutines ← many (subroutine? levels)
  let right ← expect (.symbol .rightBrace)
  return ⟨keyword, name, left, vars, subroutines, right⟩

/-- A class with nothing behind it. -/
def unit (levels : Nat) : m ClassDecl := do
  let decl ← classDecl levels
  let _ ← expect .endOfSource
  return decl

end Grammar

namespace Stream

/-- Reads a part of the grammar. Every level is entered, and no more than `maxDepth` can be, so that
the levels which the part may use are never used up. -/
def read {α : Type} (s : Stream) (part : Nat → Parser α) : Except SyntaxError α × Stream :=
  part (maxDepth + 1) s

end Stream

/-- The class that the tokens of a source spell. -/
def parseTokens (source : String) (tokens : List Token) : Except SyntaxError ClassDecl :=
  ((Stream.ofTokens source tokens).read Grammar.unit).1

end Jack
