import Jack.Tree.Basic

/-!
Listings of tokens and trees: one element to a line, parts of the grammar as nested elements.

A writer keeps the number of elements that are open. Each part of a tree opens its element, writes
what is in it and closes it.
-/

namespace Jack

/-! ### Lines -/

def escapeMarkup (c : Char) : String :=
  match c with
  | '<' => "&lt;"
  | '>' => "&gt;"
  | '&' => "&amp;"
  | c => c.toString

def escapeText (text : String) : String :=
  text.toList.foldl (fun out c => out ++ escapeMarkup c) ""

inductive Mark where
  | opening (tag : String)
  | closing (tag : String)
  | token (t : Token)
deriving DecidableEq, Repr

/-- Fails on a token that is not one of the source. -/
def Mark.text? (source : String) : Mark → Option String
  | opening tag => some ("<" ++ tag ++ ">")
  | closing tag => some ("</" ++ tag ++ ">")
  | token t => do
    let text ← t.text? source
    return "<" ++ t.kind.tag ++ "> " ++ escapeText text ++ " </" ++ t.kind.tag ++ ">"

structure Line where
  /-- The number of elements that are open around it. -/
  depth : Nat
  mark : Mark
deriving DecidableEq, Repr

def indentation (depth : Nat) : String := String.join (List.replicate depth "  ")

def Line.text? (source : String) (line : Line) : Option String := do
  return indentation line.depth ++ (← line.mark.text? source) ++ "\n"

/-! ### Writers -/

structure Writer where
  source : String
  /-- What is written so far. -/
  text : String
  /-- The number of elements that are open. -/
  depth : Nat

/-- Fails on a token that is not one of the source, and at the end of an element if none is open. -/
abbrev Printer := StateT Writer Option Unit

namespace Printer

/-- Writes a line as far to the right as there are elements open. -/
def line (mark : Mark) : Printer := fun w => do
  let text ← Line.text? w.source ⟨w.depth, mark⟩
  return ((), { w with text := w.text ++ text })

def openElement (tag : String) : Printer := do
  line (.opening tag)
  modify fun w => { w with depth := w.depth + 1 }

def closeElement (tag : String) : Printer := fun w =>
  match w.depth with
  | 0 => none
  | depth + 1 => line (.closing tag) { w with depth := depth }

def token (t : Token) : Printer := line (.token t)

/-- What is written from an empty text, no element open. -/
def run? (p : Printer) (source : String) : Option String := do
  let (_, w) ← p ⟨source, "", 0⟩
  return w.text

def keyword (k : Keyword) (span : Span) : Printer := token ⟨.keyword k, span⟩

def symbol (s : Symbol) (span : Span) : Printer := token ⟨.symbol s, span⟩

def ident (name : Ident) : Printer := token ⟨.identifier, name.span⟩

def varType : VarType → Printer
  | .primitive type span => keyword type.keyword span
  | .object name => ident name

def returnType : ReturnType → Printer
  | .void span => keyword .kwVoid span
  | .value type => varType type

/-- Items with their commas between them. -/
def separated {α : Type} (item : α → Printer) (xs : Separated α) : Printer := do
  item xs.head
  xs.tail.forM fun (comma, x) => do
    symbol .comma comma
    item x

mutual

def expr : Expr → Printer
  | .mk head tail => do
    openElement "expression"
    term head
    opTerms tail
    closeElement "expression"

def opTerms : OpTerms → Printer
  | .nil => pure ()
  | .cons op span t rest => do
    symbol op.symbol span
    term t
    opTerms rest

def term (t : Term) : Printer := do
  openElement "term"
  match t with
  | .integer _ span => token ⟨.integer, span⟩
  | .string _ span => token ⟨.string, span⟩
  | .named value span => keyword value.keyword span
  | .paren left e right =>
    symbol .leftParen left
    expr e
    symbol .rightParen right
  | .unary op span t =>
    symbol op.symbol span
    term t
  | .var name => ident name
  | .element name ix =>
    ident name
    index ix
  | .call c => call c
  closeElement "term"

def index : Index → Printer
  | .mk left e right => do
    symbol .leftBracket left
    expr e
    symbol .rightBracket right

/-- A call has no element of its own. -/
def call : Call → Printer
  | .mk receiver name left as right => do
    receiver.forM fun (object, dot) => do
      ident object
      symbol .dot dot
    ident name
    symbol .leftParen left
    openElement "expressionList"
    args as
    closeElement "expressionList"
    symbol .rightParen right

def args : Args → Printer
  | .none => pure ()
  | .some head tail => do
    expr head
    moreArgs tail

def moreArgs : MoreArgs → Printer
  | .nil => pure ()
  | .cons comma e rest => do
    symbol .comma comma
    expr e
    moreArgs rest

end

mutual

def stmt : Stmt → Printer
  | .assign kw target ix equal value semicolon => do
    openElement "letStatement"
    keyword .kwLet kw
    ident target
    ix.forM index
    symbol .equal equal
    expr value
    symbol .semicolon semicolon
    closeElement "letStatement"
  | .branch kw left condition right yes no => do
    openElement "ifStatement"
    keyword .kwIf kw
    symbol .leftParen left
    expr condition
    symbol .rightParen right
    block yes
    otherwise no
    closeElement "ifStatement"
  | .loop kw left condition right body => do
    openElement "whileStatement"
    keyword .kwWhile kw
    symbol .leftParen left
    expr condition
    symbol .rightParen right
    block body
    closeElement "whileStatement"
  | .perform kw c semicolon => do
    openElement "doStatement"
    keyword .kwDo kw
    call c
    symbol .semicolon semicolon
    closeElement "doStatement"
  | .finish kw value semicolon => do
    openElement "returnStatement"
    keyword .kwReturn kw
    value.forM expr
    symbol .semicolon semicolon
    closeElement "returnStatement"

def otherwise : Otherwise → Printer
  | .none => pure ()
  | .some kw b => do
    keyword .kwElse kw
    block b

def block : Block → Printer
  | .mk left body right => do
    symbol .leftBrace left
    openElement "statements"
    stmts body
    closeElement "statements"
    symbol .rightBrace right

def stmts : Stmts → Printer
  | .nil => pure ()
  | .cons s rest => do
    stmt s
    stmts rest

end

def classVar (dec : ClassVarDec) : Printer := do
  openElement "classVarDec"
  keyword dec.kind.keyword dec.keyword
  varType dec.type
  separated ident dec.names
  symbol .semicolon dec.semicolon
  closeElement "classVarDec"

def var (dec : VarDec) : Printer := do
  openElement "varDec"
  keyword .kwVar dec.keyword
  varType dec.type
  separated ident dec.names
  symbol .semicolon dec.semicolon
  closeElement "varDec"

def param (p : Param) : Printer := do
  varType p.type
  ident p.name

def body (b : Body) : Printer := do
  openElement "subroutineBody"
  symbol .leftBrace b.left
  b.vars.forM var
  openElement "statements"
  stmts b.statements
  closeElement "statements"
  symbol .rightBrace b.right
  closeElement "subroutineBody"

def subroutine (sub : Subroutine) : Printer := do
  openElement "subroutineDec"
  keyword sub.kind.keyword sub.keyword
  returnType sub.returns
  ident sub.name
  symbol .leftParen sub.left
  openElement "parameterList"
  sub.params.forM (separated param)
  closeElement "parameterList"
  symbol .rightParen sub.right
  body sub.body
  closeElement "subroutineDec"

def classDecl (decl : ClassDecl) : Printer := do
  openElement "class"
  keyword .kwClass decl.keyword
  ident decl.name
  symbol .leftBrace decl.left
  decl.vars.forM classVar
  decl.subroutines.forM subroutine
  symbol .rightBrace decl.right
  closeElement "class"

/-- The tags around tokens do not move them to the right. -/
def tokens (ts : List Token) : Printer := do
  line (.opening "tokens")
  ts.forM token
  line (.closing "tokens")

end Printer

/-- The listing of tokens, the ends of source left out. -/
def listTokens? (source : String) (tokens : List Token) : Option String :=
  (Printer.tokens (tokens.filter (·.kind ≠ .endOfSource))).run? source

/-- The listing of a syntax tree. -/
def listTree? (source : String) (decl : ClassDecl) : Option String :=
  (Printer.classDecl decl).run? source

end Jack
