import Jack.Tree.Grammar
import Jack.Proofs.Token.Lexemes

/-!
The grammar as the leaves and the nesting of its trees. A tree is a derivation: each of its nodes is
an instance of a production, and `terminals` reads the right-hand sides off from left to right, down
to keywords, punctuation, constants and names. `depth` is the largest number of expressions, terms
and statement lists on one path from the root.
-/

namespace Jack

/-- A token with the value that it has in a tree. The end of a source is none. -/
inductive Terminal where
  | keyword (k : Keyword) (span : Span)
  | symbol (s : Symbol) (span : Span)
  | integer (value : Nat) (span : Span)
  | string (value : String) (span : Span)
  | identifier (name : String) (span : Span)
deriving DecidableEq, Repr

namespace Terminal

def token : Terminal → Token
  | keyword k span => ⟨.keyword k, span⟩
  | symbol s span => ⟨.symbol s, span⟩
  | integer _ span => ⟨.integer, span⟩
  | string _ span => ⟨.string, span⟩
  | identifier _ span => ⟨.identifier, span⟩

/-- The value is the one that the text of the token has in the source: the number that its digits
denote, what stands between its quotes, or the name itself. -/
def Denotes (source : String) : Terminal → Prop
  | keyword _ _ => True
  | symbol _ _ => True
  | integer value span =>
    ∃ digits, span.fragment? source = some (String.ofList digits) ∧ decimalValue digits = value
  | string value span => span.fragment? source = some ("\"" ++ value ++ "\"")
  | identifier name span => span.fragment? source = some name

theorem denotes_integer_iff {source : String} {value : Nat} {span : Span} :
    (integer value span).Denotes source ↔
      (span.fragment? source).map (fun text => decimalValue text.toList) = some value := by
  simp only [Denotes, Option.map_eq_some_iff]
  constructor
  · rintro ⟨digits, hdigits, hvalue⟩
    exact ⟨_, hdigits, by simpa using hvalue⟩
  · rintro ⟨text, htext, hvalue⟩
    exact ⟨text.toList, by simpa using htext, hvalue⟩

instance (source : String) : (x : Terminal) → Decidable (x.Denotes source)
  | keyword _ _ => .isTrue trivial
  | symbol _ _ => .isTrue trivial
  | integer _ _ => decidable_of_iff _ denotes_integer_iff.symm
  | string _ _ => inferInstanceAs (Decidable (_ = _))
  | identifier _ _ => inferInstanceAs (Decidable (_ = _))

end Terminal

def Ident.terminal (name : Ident) : Terminal := .identifier name.name name.span

/-- An item behind its comma. -/
def commaTerminals {α : Type} (item : α → List Terminal) (x : Span × α) : List Terminal :=
  .symbol .comma x.1 :: item x.2

/-- items := item (',' item)* -/
def Separated.terminals {α : Type} (item : α → List Terminal) (xs : Separated α) : List Terminal :=
  item xs.head ++ xs.tail.flatMap (commaTerminals item)

theorem Separated.mem_terminals {α : Type} {item : α → List Terminal} {xs : Separated α} {x : α}
    {t : Terminal} (hx : x ∈ xs.toList) (ht : t ∈ item x) : t ∈ xs.terminals item := by
  rw [terminals, List.mem_append]
  rcases List.mem_cons.1 hx with rfl | hx
  · exact .inl ht
  · obtain ⟨y, hy, rfl⟩ := List.mem_map.1 hx
    exact .inr (List.mem_flatMap.2 ⟨y, hy, List.mem_cons_of_mem _ ht⟩)

/-! ### Expressions -/

mutual

/-- expression := term (op term)* -/
def Expr.terminals : Expr → List Terminal
  | .mk head tail => head.terminals ++ tail.terminals

def OpTerms.terminals : OpTerms → List Terminal
  | .nil => []
  | .cons op opSpan term rest => .symbol op.symbol opSpan :: (term.terminals ++ rest.terminals)

/-- term := integer | string | constant | '(' expression ')' | unaryOp term | name | name index
| call -/
def Term.terminals : Term → List Terminal
  | .integer value span => [.integer value span]
  | .string value span => [.string value span]
  | .named value span => [.keyword value.keyword span]
  | .paren left expr right =>
    .symbol .leftParen left :: (expr.terminals ++ [.symbol .rightParen right])
  | .unary op opSpan term => .symbol op.symbol opSpan :: term.terminals
  | .var name => [name.terminal]
  | .element name index => name.terminal :: index.terminals
  | .call call => call.terminals

/-- index := '[' expression ']' -/
def Index.terminals : Index → List Terminal
  | .mk left expr right =>
    .symbol .leftBracket left :: (expr.terminals ++ [.symbol .rightBracket right])

/-- call := (name '.')? name '(' expressionList ')' -/
def Call.terminals : Call → List Terminal
  | .mk none name left args right =>
    name.terminal :: .symbol .leftParen left :: (args.terminals ++ [.symbol .rightParen right])
  | .mk (some (receiver, dot)) name left args right =>
    receiver.terminal :: .symbol .dot dot :: name.terminal :: .symbol .leftParen left ::
      (args.terminals ++ [.symbol .rightParen right])

/-- expressionList := (expression (',' expression)*)? -/
def Args.terminals : Args → List Terminal
  | .none => []
  | .some head tail => head.terminals ++ tail.terminals

def MoreArgs.terminals : MoreArgs → List Terminal
  | .nil => []
  | .cons comma arg rest => .symbol .comma comma :: (arg.terminals ++ rest.terminals)

end

mutual

def Expr.depth : Expr → Nat
  | .mk head tail => max head.depth tail.depth + 1

def OpTerms.depth : OpTerms → Nat
  | .nil => 0
  | .cons _ _ term rest => max term.depth rest.depth

def Term.depth : Term → Nat
  | .integer _ _ => 1
  | .string _ _ => 1
  | .named _ _ => 1
  | .paren _ expr _ => expr.depth + 1
  | .unary _ _ term => term.depth + 1
  | .var _ => 1
  | .element _ index => index.depth + 1
  | .call call => call.depth + 1

def Index.depth : Index → Nat
  | .mk _ expr _ => expr.depth

def Call.depth : Call → Nat
  | .mk _ _ _ args _ => args.depth

def Args.depth : Args → Nat
  | .none => 0
  | .some head tail => max head.depth tail.depth

def MoreArgs.depth : MoreArgs → Nat
  | .nil => 0
  | .cons _ arg rest => max arg.depth rest.depth

end

/-! ### Statements -/

mutual

/-- statement := 'let' name index? '=' expression ';'
| 'if' '(' expression ')' block ('else' block)? | 'while' '(' expression ')' block
| 'do' call ';' | 'return' expression? ';' -/
def Stmt.terminals : Stmt → List Terminal
  | .assign keyword target index equal value semicolon =>
    .keyword .kwLet keyword :: target.terminal ::
      ((match index with | some i => i.terminals | none => []) ++ .symbol .equal equal ::
        (value.terminals ++ [.symbol .semicolon semicolon]))
  | .branch keyword left condition right yes no =>
    .keyword .kwIf keyword :: .symbol .leftParen left ::
      (condition.terminals ++ .symbol .rightParen right :: (yes.terminals ++ no.terminals))
  | .loop keyword left condition right body =>
    .keyword .kwWhile keyword :: .symbol .leftParen left ::
      (condition.terminals ++ .symbol .rightParen right :: body.terminals)
  | .perform keyword call semicolon =>
    .keyword .kwDo keyword :: (call.terminals ++ [.symbol .semicolon semicolon])
  | .finish keyword value semicolon =>
    .keyword .kwReturn keyword ::
      ((match value with | some e => e.terminals | none => []) ++ [.symbol .semicolon semicolon])

def Otherwise.terminals : Otherwise → List Terminal
  | .none => []
  | .some keyword block => .keyword .kwElse keyword :: block.terminals

/-- block := '{' statements '}' -/
def Block.terminals : Block → List Terminal
  | .mk left body right =>
    .symbol .leftBrace left :: (body.terminals ++ [.symbol .rightBrace right])

/-- statements := statement* -/
def Stmts.terminals : Stmts → List Terminal
  | .nil => []
  | .cons stmt rest => stmt.terminals ++ rest.terminals

end

mutual

def Stmt.depth : Stmt → Nat
  | .assign _ _ index _ value _ =>
    max (match index with | some i => i.depth | none => 0) value.depth
  | .branch _ _ condition _ yes no => max condition.depth (max yes.depth no.depth)
  | .loop _ _ condition _ body => max condition.depth body.depth
  | .perform _ call _ => call.depth
  | .finish _ value _ => match value with | some e => e.depth | none => 0

def Otherwise.depth : Otherwise → Nat
  | .none => 0
  | .some _ block => block.depth

def Block.depth : Block → Nat
  | .mk _ body _ => body.innerDepth + 1

/-- The depth below a statement list, which is one node however many statements it has. -/
def Stmts.innerDepth : Stmts → Nat
  | .nil => 0
  | .cons stmt rest => max stmt.depth rest.innerDepth

end

def Stmts.depth (body : Stmts) : Nat := body.innerDepth + 1

/-! ### Declarations -/

/-- type := 'int' | 'char' | 'boolean' | className -/
def VarType.terminals : VarType → List Terminal
  | primitive type span => [.keyword type.keyword span]
  | object name => [name.terminal]

/-- returnType := 'void' | type -/
def ReturnType.terminals : ReturnType → List Terminal
  | void span => [.keyword .kwVoid span]
  | value type => type.terminals

def Ident.terminals (name : Ident) : List Terminal := [name.terminal]

/-- classVarDec := ('static' | 'field') type name (',' name)* ';' -/
def ClassVarDec.terminals (dec : ClassVarDec) : List Terminal :=
  .keyword dec.kind.keyword dec.keyword :: (dec.type.terminals ++
    (dec.names.terminals Ident.terminals ++ [.symbol .semicolon dec.semicolon]))

/-- varDec := 'var' type name (',' name)* ';' -/
def VarDec.terminals (dec : VarDec) : List Terminal :=
  .keyword .kwVar dec.keyword :: (dec.type.terminals ++
    (dec.names.terminals Ident.terminals ++ [.symbol .semicolon dec.semicolon]))

/-- parameter := type name -/
def Param.terminals (param : Param) : List Terminal := param.type.terminals ++ [param.name.terminal]

/-- subroutineBody := '{' varDec* statements '}' -/
def Body.terminals (body : Body) : List Terminal :=
  .symbol .leftBrace body.left :: (body.vars.flatMap VarDec.terminals ++
    (body.statements.terminals ++ [.symbol .rightBrace body.right]))

/-- parameterList := (parameter (',' parameter)*)? -/
def paramTerminals : Option (Separated Param) → List Terminal
  | none => []
  | some params => params.terminals Param.terminals

/-- subroutineDec := ('constructor' | 'function' | 'method') returnType name '(' parameterList ')'
subroutineBody -/
def Subroutine.terminals (sub : Subroutine) : List Terminal :=
  .keyword sub.kind.keyword sub.keyword :: (sub.returns.terminals ++
    sub.name.terminal :: .symbol .leftParen sub.left :: (paramTerminals sub.params ++
      .symbol .rightParen sub.right :: sub.body.terminals))

/-- class := 'class' className '{' classVarDec* subroutineDec* '}' -/
def ClassDecl.terminals (decl : ClassDecl) : List Terminal :=
  .keyword .kwClass decl.keyword :: decl.name.terminal :: .symbol .leftBrace decl.left ::
    (decl.vars.flatMap ClassVarDec.terminals ++
      (decl.subroutines.flatMap Subroutine.terminals ++ [.symbol .rightBrace decl.right]))

def Subroutine.depth (sub : Subroutine) : Nat := sub.body.statements.depth

def ClassDecl.depth (decl : ClassDecl) : Nat :=
  (decl.subroutines.map Subroutine.depth).foldr max 0

/-- The tokens of a tree, from left to right. -/
def ClassDecl.tokens (decl : ClassDecl) : List Token := decl.terminals.map Terminal.token

/-! ### Chains as lists -/

def OpTerms.toList : OpTerms → List (BinaryOp × Span × Term)
  | .nil => []
  | .cons op opSpan term rest => (op, opSpan, term) :: rest.toList

def opTermTerminals (x : BinaryOp × Span × Term) : List Terminal :=
  .symbol x.1.symbol x.2.1 :: x.2.2.terminals

def MoreArgs.toPairs : MoreArgs → List (Span × Expr)
  | .nil => []
  | .cons comma arg rest => (comma, arg) :: rest.toPairs

def Stmts.toList : Stmts → List Stmt
  | .nil => []
  | .cons stmt rest => stmt :: rest.toList

theorem OpTerms.ofList_toList : ∀ xs : OpTerms, OpTerms.ofList xs.toList = xs
  | .nil => rfl
  | .cons op opSpan term rest => congrArg (OpTerms.cons op opSpan term) rest.ofList_toList

theorem MoreArgs.ofList_toPairs : ∀ xs : MoreArgs, MoreArgs.ofList xs.toPairs = xs
  | .nil => rfl
  | .cons comma arg rest => congrArg (MoreArgs.cons comma arg) rest.ofList_toPairs

theorem Stmts.ofList_toList : ∀ xs : Stmts, Stmts.ofList xs.toList = xs
  | .nil => rfl
  | .cons stmt rest => congrArg (Stmts.cons stmt) rest.ofList_toList

theorem OpTerms.terminals_ofList (xs : List (BinaryOp × Span × Term)) :
    (OpTerms.ofList xs).terminals = xs.flatMap opTermTerminals := by
  induction xs with
  | nil => simp [ofList, terminals]
  | cons x xs ih =>
    simp only [ofList, List.foldr_cons, terminals, List.flatMap_cons, opTermTerminals] at ih ⊢
    rw [ih, List.cons_append]

theorem MoreArgs.terminals_ofList (xs : List (Span × Expr)) :
    (MoreArgs.ofList xs).terminals = xs.flatMap (commaTerminals Expr.terminals) := by
  induction xs with
  | nil => simp [ofList, terminals]
  | cons x xs ih =>
    simp only [ofList, List.foldr_cons, terminals, List.flatMap_cons, commaTerminals] at ih ⊢
    rw [ih, List.cons_append]

theorem Args.terminals_ofSeparated (xs : Separated Expr) :
    (Args.ofSeparated (.some xs)).terminals = xs.terminals Expr.terminals := by
  simp [ofSeparated, terminals, Separated.terminals, MoreArgs.terminals_ofList]

theorem Stmts.terminals_ofList (xs : List Stmt) :
    (Stmts.ofList xs).terminals = xs.flatMap Stmt.terminals := by
  induction xs with
  | nil => simp [ofList, terminals]
  | cons x xs ih =>
    simp only [ofList, List.foldr_cons, terminals, List.flatMap_cons] at ih ⊢
    rw [ih]

theorem OpTerms.depth_ofList_le {n : Nat} {xs : List (BinaryOp × Span × Term)} :
    (OpTerms.ofList xs).depth ≤ n ↔ ∀ x ∈ xs, x.2.2.depth ≤ n := by
  induction xs with
  | nil => simp [ofList, depth]
  | cons x xs ih =>
    obtain ⟨op, opSpan, term⟩ := x
    simp only [ofList, List.foldr_cons, depth, List.forall_mem_cons] at ih ⊢
    rw [← ih]
    omega

theorem MoreArgs.depth_ofList_le {n : Nat} {xs : List (Span × Expr)} :
    (MoreArgs.ofList xs).depth ≤ n ↔ ∀ x ∈ xs, x.2.depth ≤ n := by
  induction xs with
  | nil => simp [ofList, depth]
  | cons x xs ih =>
    obtain ⟨comma, arg⟩ := x
    simp only [ofList, List.foldr_cons, depth, List.forall_mem_cons] at ih ⊢
    rw [← ih]
    omega

theorem Args.depth_ofSeparated_le {n : Nat} {xs : Separated Expr} :
    (Args.ofSeparated (.some xs)).depth ≤ n ↔ ∀ e ∈ xs.toList, e.depth ≤ n := by
  simp only [ofSeparated, depth, Separated.toList, List.forall_mem_cons, List.forall_mem_map,
    ← MoreArgs.depth_ofList_le]
  omega

theorem Stmts.innerDepth_ofList_le {n : Nat} {xs : List Stmt} :
    (Stmts.ofList xs).innerDepth ≤ n ↔ ∀ x ∈ xs, x.depth ≤ n := by
  induction xs with
  | nil => simp [ofList, innerDepth]
  | cons x xs ih =>
    simp only [ofList, List.foldr_cons, innerDepth, List.forall_mem_cons] at ih ⊢
    rw [← ih]
    omega

theorem ClassDecl.depth_le {n : Nat} {decl : ClassDecl} :
    decl.depth ≤ n ↔ ∀ sub ∈ decl.subroutines, sub.depth ≤ n := by
  simp only [depth]
  induction decl.subroutines with
  | nil => simp
  | cons sub subs ih =>
    simp only [List.map_cons, List.foldr_cons, List.forall_mem_cons]
    rw [← ih]
    omega

/-! ### The word for the current object -/

/-- No terminal is a name that is the word for the current object. -/
def NoThis (terminals : List Terminal) : Prop :=
  ∀ span, Terminal.identifier "this" span ∉ terminals

section

variable {ts ts' : List Terminal} {span : Span}

@[simp] theorem noThis_append : NoThis (ts ++ ts') ↔ NoThis ts ∧ NoThis ts' := by
  simp [NoThis, forall_and]

@[simp] theorem noThis_nil : NoThis [] := by simp [NoThis]

@[simp] theorem noThis_symbol {s : Symbol} : NoThis (.symbol s span :: ts) ↔ NoThis ts := by
  simp [NoThis]

@[simp] theorem noThis_keyword {k : Keyword} : NoThis (.keyword k span :: ts) ↔ NoThis ts := by
  simp [NoThis]

@[simp] theorem noThis_ident {name : Ident} :
    NoThis (name.terminal :: ts) ↔ name.name ≠ "this" ∧ NoThis ts := by
  simp only [NoThis, Ident.terminal, List.mem_cons, not_or, forall_and, ne_eq,
    Terminal.identifier.injEq, not_and]
  constructor
  · intro h
    exact ⟨fun hname => h.1 name.span hname.symm rfl, h.2⟩
  · intro h
    exact ⟨fun span hname => absurd hname.symm h.1, h.2⟩

theorem NoThis.mono (h : NoThis ts) (hsubset : ts' ⊆ ts) : NoThis ts' :=
  fun span hmem => h span (hsubset hmem)

end

end Jack
