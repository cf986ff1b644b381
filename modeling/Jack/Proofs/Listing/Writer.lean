import Jack.Listing
import Jack.Proofs.Tree.Terminals

/-!
Listings as lines. A tree is laid out as an `Outline` of tags and tokens, whose lines are at the
depths of their places. The writer writes these lines: wherever it closes an element there is one
open, and what it opens it closes.
-/

namespace Jack

def writeLines? (source : String) (lines : List Line) : Option String := do
  return String.join (← lines.mapM (Line.text? source))

theorem writeLines?_nil (source : String) : writeLines? source [] = some "" := rfl

theorem writeLines?_append (source : String) (lines lines' : List Line) :
    writeLines? source (lines ++ lines') = do
      let text ← writeLines? source lines
      let text' ← writeLines? source lines'
      return text ++ text' := by
  simp only [writeLines?, List.mapM_append, bind_assoc, pure_bind, String.join_append]

theorem writeLines?_singleton (source : String) (line : Line) :
    writeLines? source [line] = line.text? source := by
  cases h : line.text? source <;> simp [writeLines?, h]

/-! ### Outlines -/

inductive Outline where
  | token (t : Token)
  | element (tag : String) (children : List Outline)

namespace Outline

mutual

/-- The lines of an outline, first to last. -/
def linesAt (depth : Nat) : Outline → List Line
  | .token t => [⟨depth, .token t⟩]
  | .element tag children =>
    ⟨depth, .opening tag⟩ :: (childLinesAt (depth + 1) children ++ [⟨depth, .closing tag⟩])

def childLinesAt (depth : Nat) : List Outline → List Line
  | [] => []
  | child :: children => linesAt depth child ++ childLinesAt depth children

end

def lines (o : Outline) : List Line := linesAt 0 o

theorem childLinesAt_append (depth : Nat) (os os' : List Outline) :
    childLinesAt depth (os ++ os') = childLinesAt depth os ++ childLinesAt depth os' := by
  induction os with
  | nil => rfl
  | cons o os ih => rw [List.cons_append, childLinesAt, childLinesAt, ih, List.append_assoc]

theorem childLinesAt_singleton (depth : Nat) (o : Outline) :
    childLinesAt depth [o] = linesAt depth o := by
  rw [childLinesAt, childLinesAt, List.append_nil]

def keyword (k : Keyword) (span : Span) : Outline := token ⟨.keyword k, span⟩

def symbol (s : Symbol) (span : Span) : Outline := token ⟨.symbol s, span⟩

def ident (name : Ident) : Outline := token ⟨.identifier, name.span⟩

def varType : VarType → Outline
  | .primitive type span => keyword type.keyword span
  | .object name => ident name

def returnType : ReturnType → Outline
  | .void span => keyword .kwVoid span
  | .value type => varType type

/-- The outlines of items with their commas between them. -/
def separated {α : Type} (item : α → List Outline) (xs : Separated α) : List Outline :=
  item xs.head ++ xs.tail.flatMap fun (comma, x) => symbol .comma comma :: item x

mutual

def expr : Expr → Outline
  | .mk head tail => element "expression" (term head :: opTerms tail)

def opTerms : OpTerms → List Outline
  | .nil => []
  | .cons op span t rest => symbol op.symbol span :: term t :: opTerms rest

def term : Term → Outline
  | .integer _ span => element "term" [token ⟨.integer, span⟩]
  | .string _ span => element "term" [token ⟨.string, span⟩]
  | .named value span => element "term" [keyword value.keyword span]
  | .paren left e right =>
    element "term" [symbol .leftParen left, expr e, symbol .rightParen right]
  | .unary op span t => element "term" [symbol op.symbol span, term t]
  | .var name => element "term" [ident name]
  | .element name ix => element "term" (ident name :: index ix)
  | .call c => element "term" (call c)

def index : Index → List Outline
  | .mk left e right => [symbol .leftBracket left, expr e, symbol .rightBracket right]

/-- A call has no element of its own. -/
def call : Call → List Outline
  | .mk receiver name left as right =>
    receiver.elim [] (fun (name, dot) => [ident name, symbol .dot dot])
      ++ [ident name, symbol .leftParen left, element "expressionList" (args as),
        symbol .rightParen right]

def args : Args → List Outline
  | .none => []
  | .some head tail => expr head :: moreArgs tail

def moreArgs : MoreArgs → List Outline
  | .nil => []
  | .cons comma e rest => symbol .comma comma :: expr e :: moreArgs rest

end

mutual

def stmt : Stmt → Outline
  | .assign kw target ix equal value semicolon =>
    element "letStatement"
      (keyword .kwLet kw :: ident target :: ix.elim [] index
        ++ [symbol .equal equal, expr value, symbol .semicolon semicolon])
  | .branch kw left condition right yes no =>
    element "ifStatement"
      ([keyword .kwIf kw, symbol .leftParen left, expr condition, symbol .rightParen right]
        ++ block yes ++ otherwise no)
  | .loop kw left condition right body =>
    element "whileStatement"
      ([keyword .kwWhile kw, symbol .leftParen left, expr condition, symbol .rightParen right]
        ++ block body)
  | .perform kw c semicolon =>
    element "doStatement" (keyword .kwDo kw :: call c ++ [symbol .semicolon semicolon])
  | .finish kw value semicolon =>
    element "returnStatement"
      (keyword .kwReturn kw :: value.elim [] (fun e => [expr e]) ++ [symbol .semicolon semicolon])

def otherwise : Otherwise → List Outline
  | .none => []
  | .some kw b => keyword .kwElse kw :: block b

def block : Block → List Outline
  | .mk left body right =>
    [symbol .leftBrace left, element "statements" (stmts body), symbol .rightBrace right]

def stmts : Stmts → List Outline
  | .nil => []
  | .cons s rest => stmt s :: stmts rest

end

def names (xs : Separated Ident) : List Outline := separated (fun name => [ident name]) xs

def classVar (dec : ClassVarDec) : Outline :=
  element "classVarDec"
    (keyword dec.kind.keyword dec.keyword :: varType dec.type :: names dec.names
      ++ [symbol .semicolon dec.semicolon])

def var (dec : VarDec) : Outline :=
  element "varDec"
    (keyword .kwVar dec.keyword :: varType dec.type :: names dec.names
      ++ [symbol .semicolon dec.semicolon])

def params (ps : Option (Separated Param)) : List Outline :=
  ps.elim [] (separated fun p => [varType p.type, ident p.name])

def body (b : Body) : Outline :=
  element "subroutineBody"
    (symbol .leftBrace b.left :: b.vars.map var
      ++ [element "statements" (stmts b.statements), symbol .rightBrace b.right])

def subroutine (sub : Subroutine) : Outline :=
  element "subroutineDec"
    [keyword sub.kind.keyword sub.keyword, returnType sub.returns, ident sub.name,
      symbol .leftParen sub.left, element "parameterList" (params sub.params),
      symbol .rightParen sub.right, body sub.body]

def classDecl (decl : ClassDecl) : Outline :=
  element "class"
    ([keyword .kwClass decl.keyword, ident decl.name, symbol .leftBrace decl.left]
      ++ decl.vars.map classVar ++ decl.subroutines.map subroutine
      ++ [symbol .rightBrace decl.right])

end Outline

/-! ### Lines of the writer -/

namespace Printer

variable {p q : Printer} {depth depth₁ depth₂ : Nat} {lines lines' : List Line}
  {os os' : List Outline} {tag : String}

/-- From the first depth to the second the printer writes the lines, behind any text. It fails only
if one of them cannot be written. -/
def Writes (p : Printer) (depth : Nat) (lines : List Line) (depth' : Nat) : Prop :=
  ∀ source text, p ⟨source, text, depth⟩ =
    (writeLines? source lines).map fun more => ((), ⟨source, text ++ more, depth'⟩)

theorem writes_pure (depth : Nat) : Writes (pure ()) depth [] depth := by
  intro source text
  rw [writeLines?_nil, Option.map_some, String.append_empty]
  rfl

theorem writes_line (mark : Mark) (depth : Nat) :
    (line mark).Writes depth [⟨depth, mark⟩] depth := by
  intro source text
  rw [writeLines?_singleton, line]
  cases Line.text? source ⟨depth, mark⟩ <;> rfl

theorem Writes.seq (hp : p.Writes depth lines depth₁) (hq : q.Writes depth₁ lines' depth₂) :
    Writes (p >>= fun _ => q) depth (lines ++ lines') depth₂ := by
  intro source text
  have hbind : (p >>= fun _ => q) ⟨source, text, depth⟩ =
      (p ⟨source, text, depth⟩).bind fun r => q r.2 := rfl
  rw [hbind, hp, writeLines?_append]
  cases writeLines? source lines with
  | none => rfl
  | some more =>
    simp only [Option.map_some, Option.bind_some, hq source (text ++ more)]
    cases writeLines? source lines' <;> simp [String.append_assoc]

theorem writes_openElement (tag : String) (depth : Nat) :
    (openElement tag).Writes depth [⟨depth, .opening tag⟩] (depth + 1) := by
  have hdeeper : Writes (modify fun w => { w with depth := w.depth + 1 }) depth [] (depth + 1) := by
    intro source text
    rw [writeLines?_nil, Option.map_some, String.append_empty]
    rfl
  exact (writes_line (.opening tag) depth).seq hdeeper

/-- An element that is open can be closed. -/
theorem writes_closeElement (tag : String) (depth : Nat) :
    (closeElement tag).Writes (depth + 1) [⟨depth, .closing tag⟩] depth := by
  intro source text
  exact writes_line (.closing tag) depth source text

/-- The printer writes the outlines wherever it is, and leaves as many elements open as there
were. -/
def Prints (p : Printer) (os : List Outline) : Prop :=
  ∀ depth, p.Writes depth (Outline.childLinesAt depth os) depth

theorem prints_pure : Prints (pure ()) [] := writes_pure

theorem prints_token (t : Token) : (token t).Prints [.token t] := writes_line (.token t)

theorem Prints.seq (hp : p.Prints os) (hq : q.Prints os') :
    Prints (p >>= fun _ => q) (os ++ os') := by
  intro depth
  rw [Outline.childLinesAt_append]
  exact (hp depth).seq (hq depth)

theorem Prints.element (tag : String) (hp : p.Prints os) :
    Prints (do openElement tag; p; closeElement tag) [.element tag os] := by
  intro depth
  rw [Outline.childLinesAt_singleton, Outline.linesAt]
  exact (writes_openElement tag depth).seq ((hp (depth + 1)).seq (writes_closeElement tag depth))

theorem prints_forM {α : Type} {print : α → Printer} {f : α → List Outline}
    (h : ∀ x, (print x).Prints (f x)) (xs : List α) : Prints (xs.forM print) (xs.flatMap f) := by
  induction xs with
  | nil => exact prints_pure
  | cons x xs ih => exact (h x).seq ih

theorem prints_map {α : Type} {print : α → Printer} {f : α → Outline}
    (h : ∀ x, (print x).Prints [f x]) (xs : List α) : Prints (xs.forM print) (xs.map f) := by
  rw [List.map_eq_flatMap]
  exact prints_forM h xs

theorem prints_optional {α : Type} {print : α → Printer} {f : α → List Outline}
    (h : ∀ x, (print x).Prints (f x)) (x : Option α) : Prints (x.forM print) (x.elim [] f) := by
  cases x with
  | none => exact prints_pure
  | some x => exact h x

theorem prints_keyword (k : Keyword) (span : Span) :
    (keyword k span).Prints [.keyword k span] := prints_token _

theorem prints_symbol (s : Symbol) (span : Span) : (symbol s span).Prints [.symbol s span] :=
  prints_token _

theorem prints_ident (name : Ident) : (ident name).Prints [.ident name] := prints_token _

theorem prints_varType (type : VarType) : (varType type).Prints [.varType type] := by
  cases type with
  | primitive type span => exact prints_keyword _ _
  | object name => exact prints_ident name

theorem prints_returnType (type : ReturnType) : (returnType type).Prints [.returnType type] := by
  cases type with
  | void span => exact prints_keyword _ _
  | value type => exact prints_varType type

theorem prints_separated {α : Type} {item : α → Printer} {f : α → List Outline}
    (h : ∀ x, (item x).Prints (f x)) (xs : Separated α) :
    (separated item xs).Prints (Outline.separated f xs) := by
  rw [separated, Outline.separated]
  apply (h xs.head).seq
  apply prints_forM
  rintro ⟨comma, x⟩
  exact (prints_symbol .comma comma).seq (h x)

mutual

theorem prints_expr : ∀ e : Expr, (expr e).Prints [.expr e]
  | .mk head tail => by
    have h := ((prints_term head).seq (prints_opTerms tail)).element "expression"
    rw [expr, Outline.expr]
    simpa using h

theorem prints_opTerms : ∀ xs : OpTerms, (opTerms xs).Prints (Outline.opTerms xs)
  | .nil => by
    rw [opTerms, Outline.opTerms]
    exact prints_pure
  | .cons op span t rest => by
    rw [opTerms, Outline.opTerms]
    exact (prints_symbol op.symbol span).seq ((prints_term t).seq (prints_opTerms rest))

theorem prints_term : ∀ t : Term, (term t).Prints [.term t]
  | .integer _ span => by
    rw [term, Outline.term]
    exact (prints_token ⟨.integer, span⟩).element "term"
  | .string _ span => by
    rw [term, Outline.term]
    exact (prints_token ⟨.string, span⟩).element "term"
  | .named value span => by
    rw [term, Outline.term]
    exact (prints_keyword value.keyword span).element "term"
  | .paren left e right => by
    have h := ((prints_symbol .leftParen left).seq
      ((prints_expr e).seq (prints_symbol .rightParen right))).element "term"
    rw [term, Outline.term]
    simpa using h
  | .unary op span t => by
    have h := ((prints_symbol op.symbol span).seq (prints_term t)).element "term"
    rw [term, Outline.term]
    simpa using h
  | .var name => by
    rw [term, Outline.term]
    exact (prints_ident name).element "term"
  | .element name ix => by
    have h := ((prints_ident name).seq (prints_index ix)).element "term"
    rw [term, Outline.term]
    simpa using h
  | .call c => by
    rw [term, Outline.term]
    exact (prints_call c).element "term"

theorem prints_index : ∀ ix : Index, (index ix).Prints (Outline.index ix)
  | .mk left e right => by
    rw [index, Outline.index]
    exact (prints_symbol .leftBracket left).seq
      ((prints_expr e).seq (prints_symbol .rightBracket right))

theorem prints_call : ∀ c : Call, (call c).Prints (Outline.call c)
  | .mk receiver name left as right => by
    have hreceiver := prints_optional
      (fun (x : Ident × Span) => (prints_ident x.1).seq (prints_symbol .dot x.2)) receiver
    have h := hreceiver.seq ((prints_ident name).seq ((prints_symbol .leftParen left).seq
      (((prints_args as).element "expressionList").seq (prints_symbol .rightParen right))))
    rw [call, Outline.call]
    simpa using h

theorem prints_args : ∀ as : Args, (args as).Prints (Outline.args as)
  | .none => by
    rw [args, Outline.args]
    exact prints_pure
  | .some head tail => by
    rw [args, Outline.args]
    exact (prints_expr head).seq (prints_moreArgs tail)

theorem prints_moreArgs : ∀ as : MoreArgs, (moreArgs as).Prints (Outline.moreArgs as)
  | .nil => by
    rw [moreArgs, Outline.moreArgs]
    exact prints_pure
  | .cons comma e rest => by
    rw [moreArgs, Outline.moreArgs]
    exact (prints_symbol .comma comma).seq ((prints_expr e).seq (prints_moreArgs rest))

end

mutual

theorem prints_stmt : ∀ s : Stmt, (stmt s).Prints [.stmt s]
  | .assign kw target ix equal value semicolon => by
    have hix := prints_optional prints_index ix
    have h := ((prints_keyword .kwLet kw).seq ((prints_ident target).seq (hix.seq
      ((prints_symbol .equal equal).seq ((prints_expr value).seq
        (prints_symbol .semicolon semicolon)))))).element "letStatement"
    rw [stmt, Outline.stmt]
    simpa using h
  | .branch kw left condition right yes no => by
    have h := ((prints_keyword .kwIf kw).seq ((prints_symbol .leftParen left).seq
      ((prints_expr condition).seq ((prints_symbol .rightParen right).seq
        ((prints_block yes).seq (prints_otherwise no)))))).element "ifStatement"
    rw [stmt, Outline.stmt]
    simpa using h
  | .loop kw left condition right body => by
    have h := ((prints_keyword .kwWhile kw).seq ((prints_symbol .leftParen left).seq
      ((prints_expr condition).seq ((prints_symbol .rightParen right).seq
        (prints_block body))))).element "whileStatement"
    rw [stmt, Outline.stmt]
    simpa using h
  | .perform kw c semicolon => by
    have h := ((prints_keyword .kwDo kw).seq ((prints_call c).seq
      (prints_symbol .semicolon semicolon))).element "doStatement"
    rw [stmt, Outline.stmt]
    simpa using h
  | .finish kw value semicolon => by
    have hvalue := prints_optional prints_expr value
    have h := ((prints_keyword .kwReturn kw).seq (hvalue.seq
      (prints_symbol .semicolon semicolon))).element "returnStatement"
    rw [stmt, Outline.stmt]
    simpa using h

theorem prints_otherwise : ∀ no : Otherwise, (otherwise no).Prints (Outline.otherwise no)
  | .none => by
    rw [otherwise, Outline.otherwise]
    exact prints_pure
  | .some kw b => by
    rw [otherwise, Outline.otherwise]
    exact (prints_keyword .kwElse kw).seq (prints_block b)

theorem prints_block : ∀ b : Block, (block b).Prints (Outline.block b)
  | .mk left body right => by
    have h := (prints_symbol .leftBrace left).seq
      (((prints_stmts body).element "statements").seq (prints_symbol .rightBrace right))
    rw [block, Outline.block]
    simpa using h

theorem prints_stmts : ∀ body : Stmts, (stmts body).Prints (Outline.stmts body)
  | .nil => by
    rw [stmts, Outline.stmts]
    exact prints_pure
  | .cons s rest => by
    rw [stmts, Outline.stmts]
    exact (prints_stmt s).seq (prints_stmts rest)

end

theorem prints_names (xs : Separated Ident) : (separated ident xs).Prints (Outline.names xs) :=
  prints_separated prints_ident xs

theorem prints_classVar (dec : ClassVarDec) : (classVar dec).Prints [.classVar dec] := by
  have h := ((prints_keyword dec.kind.keyword dec.keyword).seq ((prints_varType dec.type).seq
    ((prints_names dec.names).seq (prints_symbol .semicolon dec.semicolon)))).element "classVarDec"
  rw [classVar, Outline.classVar]
  simpa using h

theorem prints_var (dec : VarDec) : (var dec).Prints [.var dec] := by
  have h := ((prints_keyword .kwVar dec.keyword).seq ((prints_varType dec.type).seq
    ((prints_names dec.names).seq (prints_symbol .semicolon dec.semicolon)))).element "varDec"
  rw [var, Outline.var]
  simpa using h

theorem prints_param (p : Param) :
    (param p).Prints [.varType p.type, .ident p.name] :=
  (prints_varType p.type).seq (prints_ident p.name)

theorem prints_body (b : Body) : (body b).Prints [.body b] := by
  have hvars := prints_map prints_var b.vars
  have h := ((prints_symbol .leftBrace b.left).seq (hvars.seq
    (((prints_stmts b.statements).element "statements").seq
      (prints_symbol .rightBrace b.right)))).element "subroutineBody"
  rw [body, Outline.body]
  simpa using h

theorem prints_params (ps : Option (Separated Param)) :
    Prints (ps.forM (separated param)) (Outline.params ps) :=
  prints_optional (prints_separated prints_param) ps

theorem prints_subroutine (sub : Subroutine) : (subroutine sub).Prints [.subroutine sub] := by
  have hparams := (prints_params sub.params).element "parameterList"
  have h := ((prints_keyword sub.kind.keyword sub.keyword).seq
    ((prints_returnType sub.returns).seq ((prints_ident sub.name).seq
      ((prints_symbol .leftParen sub.left).seq (hparams.seq
        ((prints_symbol .rightParen sub.right).seq
          (prints_body sub.body))))))).element "subroutineDec"
  rw [subroutine, Outline.subroutine]
  simpa using h

theorem prints_classDecl (decl : ClassDecl) : (classDecl decl).Prints [.classDecl decl] := by
  have hvars := prints_map prints_classVar decl.vars
  have hsubroutines := prints_map prints_subroutine decl.subroutines
  have h := ((prints_keyword .kwClass decl.keyword).seq ((prints_ident decl.name).seq
    ((prints_symbol .leftBrace decl.left).seq (hvars.seq (hsubroutines.seq
      (prints_symbol .rightBrace decl.right)))))).element "class"
  rw [classDecl, Outline.classDecl]
  simpa using h

/-- Tokens are written as if no element was open around them. -/
theorem writes_tokens (ts : List Token) (depth : Nat) : (tokens ts).Writes depth
    (⟨depth, .opening "tokens"⟩ :: ts.map (⟨depth, .token ·⟩) ++ [⟨depth, .closing "tokens"⟩])
    depth := by
  have htokens : Writes (ts.forM token) depth (ts.map (⟨depth, .token ·⟩)) depth := by
    induction ts with
    | nil => exact writes_pure depth
    | cons t ts ih => exact (writes_line (.token t) depth).seq ih
  exact (writes_line (.opening "tokens") depth).seq
    (htokens.seq (writes_line (.closing "tokens") depth))

theorem Writes.run?_eq (h : p.Writes 0 lines depth) (source : String) :
    p.run? source = writeLines? source lines := by
  rw [run?, h]
  cases writeLines? source lines <;> simp

theorem Writes.apply_eq (h : p.Writes 0 lines depth) (source : String) :
    p ⟨source, "", 0⟩ = (p.run? source).map fun text => ((), ⟨source, text, depth⟩) := by
  rw [h.run?_eq, h]
  simp

end Printer

theorem listTree?_eq (source : String) (decl : ClassDecl) :
    listTree? source decl = writeLines? source (Outline.classDecl decl).lines := by
  have h := Printer.prints_classDecl decl 0
  rw [Outline.childLinesAt_singleton] at h
  exact h.run?_eq source

/-- The writer closes all that it opens: no element is open behind a tree. -/
theorem printer_classDecl_eq (source : String) (decl : ClassDecl) :
    Printer.classDecl decl ⟨source, "", 0⟩ =
      (listTree? source decl).map fun text => ((), ⟨source, text, 0⟩) :=
  (Printer.prints_classDecl decl 0).apply_eq source

theorem listTokens?_eq (source : String) (tokens : List Token) :
    listTokens? source tokens =
      let shown := tokens.filter (·.kind ≠ .endOfSource)
      writeLines? source
        (⟨0, .opening "tokens"⟩ :: shown.map (⟨0, .token ·⟩) ++ [⟨0, .closing "tokens"⟩]) :=
  (Printer.writes_tokens _ 0).run?_eq source

end Jack
