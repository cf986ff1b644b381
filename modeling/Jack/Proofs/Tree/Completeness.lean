import Jack.Proofs.Tree.Reading

/-!
Every tree that the levels are enough for is read from its own terminals. What decides between the
productions is the token ahead, so each lemma says which kinds may follow: a name must not run into
a bracket or a dot, an expression not into a further operator, and a branch not into an `else`.
-/

namespace Jack

/-- A kind that cannot continue a term behind a name. -/
def Kind.EndsName (kind : Kind) : Prop :=
  kind ≠ .symbol .leftParen ∧ kind ≠ .symbol .dot ∧ kind ≠ .symbol .leftBracket

/-- A kind that cannot continue an expression. -/
def Kind.EndsExpr (kind : Kind) : Prop := kind.EndsName ∧ BinaryOp.ofKind? kind = none

/-- A kind that ends neither a list of arguments nor a statement, as that of a term's start. -/
def Kind.OpensExpr (kind : Kind) : Prop :=
  kind ≠ .symbol .rightParen ∧ kind ≠ .symbol .semicolon

instance (kind : Kind) : Decidable kind.EndsName := inferInstanceAs (Decidable (_ ∧ _))
instance (kind : Kind) : Decidable kind.EndsExpr := inferInstanceAs (Decidable (_ ∧ _))
instance (kind : Kind) : Decidable kind.OpensExpr := inferInstanceAs (Decidable (_ ∧ _))

theorem BinaryOp.endsName (op : BinaryOp) : (Kind.symbol op.symbol).EndsName := by
  cases op <;> decide

/-! ### First tokens -/

open Reader (Starts)

theorem VarType.starts_terminals (type : VarType) :
    Starts (fun kind => VarType.starts kind = true) type.terminals := by
  cases type with
  | primitive type span => cases type <;> exact .cons rfl
  | object name => exact .cons rfl

theorem Call.starts_terminals (call : Call) : Starts Kind.OpensExpr call.terminals := by
  obtain ⟨receiver, name, left, args, right⟩ := call
  cases receiver with
  | none => exact .cons (show Kind.OpensExpr .identifier by decide)
  | some receiver => exact .cons (show Kind.OpensExpr .identifier by decide)

theorem Term.starts_terminals (t : Term) : Starts Kind.OpensExpr t.terminals := by
  cases t with
  | integer value span => exact .cons (show Kind.OpensExpr .integer by decide)
  | string value span => exact .cons (show Kind.OpensExpr .string by decide)
  | named value span => exact .cons ⟨by simp [Terminal.token], by simp [Terminal.token]⟩
  | paren left e right => exact .cons (show Kind.OpensExpr (.symbol .leftParen) by decide)
  | unary op span t =>
    exact .cons (show Kind.OpensExpr (.symbol op.symbol) by cases op <;> decide)
  | var name => exact .cons (show Kind.OpensExpr .identifier by decide)
  | element name index => exact .cons (show Kind.OpensExpr .identifier by decide)
  | call call => exact call.starts_terminals

theorem Expr.starts_terminals (e : Expr) : Starts Kind.OpensExpr e.terminals := by
  obtain ⟨head, tail⟩ := e
  exact head.starts_terminals.append

theorem Stmt.starts_terminals (s : Stmt) :
    Starts (fun kind => kind ≠ .keyword .kwElse ∧ kind ≠ .keyword .kwVar) s.terminals := by
  cases s <;> exact .cons ⟨by simp [Terminal.token], by simp [Terminal.token]⟩

theorem Subroutine.starts_terminals (sub : Subroutine) :
    Starts (fun kind => ClassVarKind.ofKind? kind = none) sub.terminals := by
  obtain ⟨kind, keyword, returns, name, left, params, right, body⟩ := sub
  cases kind <;> exact .cons rfl

namespace Reader

variable {n : Nat} {c : Cursor}

/-! ### Names, constants and types -/

theorem expect_before (c : Cursor) (x : Terminal) (xs : List Terminal) :
    expect x.token.kind (c.before (x :: xs)) = .ok (x.token.span, c.before xs) := by
  simp [expect]

theorem ident_before {name : Ident} (hread : name.terminal.ReadAs c.source) (xs : List Terminal) :
    ident (c.before (name.terminal :: xs)) = .ok (name, c.before xs) := by
  have htext : textOf ⟨.identifier, name.span⟩ (c.before xs) = .ok (name.name, c.before xs) :=
    textOf_of_eq_some hread
  exact bind_of_ok (expect_before c name.terminal xs) (bind_of_ok htext rfl)

theorem integer_before {value : Nat} {span : Span}
    (hread : (Terminal.integer value span).ReadAs c.source) :
    integer (c.before [.integer value span]) = .ok ((value, span), c) := by
  obtain ⟨text, htext, hvalue⟩ := hread
  refine bind_of_ok (expect_before c (.integer value span) []) ?_
  refine bind_of_ok (textOf_of_eq_some htext) ?_
  simp [hvalue, Terminal.token]

theorem string_before {value : String} {span : Span}
    (hread : (Terminal.string value span).ReadAs c.source) :
    string (c.before [.string value span]) = .ok ((value, span), c) := by
  have htext : textOf ⟨.string, span⟩ c = .ok (value, c) := textOf_of_eq_some hread
  exact bind_of_ok (expect_before c (.string value span) []) (bind_of_ok htext rfl)

theorem varType_covers : Covers varType VarType.terminals id (fun _ => True) fun _ => True := by
  intro c type _ hread _
  cases type with
  | primitive type span =>
    cases type <;> exact bind_of_ok rfl (bind_of_ok (take_before_cons ..) rfl)
  | object name =>
    have hname := hread name.terminal (by simp [VarType.terminals])
    exact bind_of_ok rfl (bind_of_ok (ident_before hname []) rfl)

theorem returnType_covers :
    Covers returnType ReturnType.terminals id (fun _ => True) fun _ => True := by
  intro c type _ hread _
  cases type with
  | void span => exact bind_of_ok (acceptKeyword?_before ..) rfl
  | value type =>
    have hkind : (c.before type.terminals).current.kind ≠ .keyword .kwVoid := by
      have hstart := type.starts_terminals.current c
      intro hvoid
      simp [hvoid, VarType.starts, Primitive.ofKeyword?] at hstart
    refine bind_of_ok (accept?_of_kind_ne hkind) ?_
    exact bind_of_ok (varType_covers c type trivial hread trivial) rfl

/-! ### Expressions -/

theorem endsExpr_before {mark : Symbol} (hmark : (Kind.symbol mark).EndsExpr) (c : Cursor)
    (span : Span) (xs : List Terminal) :
    (c.before (.symbol mark span :: xs)).current.kind.EndsExpr := hmark

section

variable {expr : Reader Expr} {term : Reader Term}
  (hexpr : Covers expr Expr.terminals id (fun e => e.depth ≤ n) Kind.EndsExpr)
  (hterm : Covers term Term.terminals id (fun t => t.depth ≤ n) Kind.EndsName)

include hterm in
theorem opTerm?_covers :
    Covers (opTerm? term) opTermTerminals some (fun x => x.2.2.depth ≤ n) Kind.EndsName := by
  rintro c ⟨op, span, t⟩ hdepth hread hnext
  rw [opTermTerminals, List.forall_mem_cons] at hread
  have ht := hterm c t hdepth hread.2 hnext
  refine bind_of_ok rfl ?_
  cases op <;> exact bind_of_ok (take_before_cons ..) (bind_of_ok ht rfl)

theorem opTerm?_declines (h : BinaryOp.ofKind? c.current.kind = none) :
    opTerm? term c = .ok (none, c) := by
  refine bind_of_ok rfl ?_
  rw [h]
  rfl

include hterm in
theorem exprWith_covers :
    Covers (exprWith term) Expr.terminals id (fun e => e.depth ≤ n + 1) Kind.EndsExpr := by
  rintro c ⟨head, tail⟩ hdepth hread hnext
  obtain ⟨xs, rfl⟩ : ∃ xs, tail = OpTerms.ofList xs := ⟨_, tail.ofList_toList.symm⟩
  rw [Expr.terminals, OpTerms.terminals_ofList, List.forall_mem_append] at hread
  rw [Expr.depth, Nat.succ_le_succ_iff, Nat.max_le, OpTerms.depth_ofList_le] at hdepth
  have hstart : ∀ x ∈ xs, Starts Kind.EndsName (opTermTerminals x) :=
    fun x _ => .cons x.1.endsName
  have hhead := hterm (c.before (xs.flatMap opTermTerminals)) head hdepth.1 hread.1
    (next_before_flatMap hstart hnext.1)
  have htail := (opTerm?_covers hterm).many hdepth.2 hread.2 hstart hnext.1
    (opTerm?_declines hnext.2)
  rw [Expr.terminals, OpTerms.terminals_ofList, Cursor.before_append]
  exact bind_of_ok hhead (bind_of_ok htail rfl)

include hexpr in
theorem argument?_covers :
    Covers (argument? expr) Expr.terminals some (fun e => e.depth ≤ n) Kind.EndsExpr := by
  intro c e hdepth hread hnext
  refine bind_of_ok rfl ?_
  rw [if_neg (e.starts_terminals.current c).1]
  exact bind_of_ok (hexpr c e hdepth hread hnext) rfl

theorem argument?_declines (h : c.current.kind = .symbol .rightParen) :
    argument? expr c = .ok (none, c) := by
  refine bind_of_ok rfl ?_
  rw [if_pos h]
  rfl

include hexpr in
theorem argsWith_covers :
    Covers (argsWith expr) Args.terminals id (fun args => args.depth ≤ n)
      (· = .symbol .rightParen) := by
  intro c args hdepth hread hnext
  cases args with
  | none =>
    have hargs : separated? (argument? expr) c = .ok (none, c) :=
      bind_of_ok (argument?_declines hnext) rfl
    exact bind_of_ok hargs rfl
  | some head tail =>
    obtain ⟨xs, rfl⟩ : ∃ xs, tail = MoreArgs.ofList xs := ⟨_, tail.ofList_toPairs.symm⟩
    have hargs := (argument?_covers hexpr).separated? (by decide) c ⟨head, xs⟩
      (Args.depth_ofSeparated_le.1 hdepth) (Args.terminals_ofSeparated ⟨head, xs⟩ ▸ hread)
      (hnext ▸ (by decide))
    rw [← Args.terminals_ofSeparated] at hargs
    exact bind_of_ok hargs rfl

theorem receiver?_before {name : Ident} (hread : name.terminal.ReadAs c.source) (dot : Span)
    (xs : List Terminal) :
    receiver? (c.before (name.terminal :: .symbol .dot dot :: xs)) =
      .ok (some (name, dot), c.before xs) := by
  refine bind_of_ok rfl ?_
  rw [Cursor.peek_before_cons, Cursor.current_before_cons, Terminal.token, if_pos rfl]
  exact bind_of_ok (ident_before hread _) (bind_of_ok (expectSymbol_before ..) rfl)

theorem receiver?_declines (h : (c.peek 1).kind ≠ .symbol .dot) :
    receiver? c = .ok (none, c) := by
  refine bind_of_ok rfl ?_
  rw [if_neg h]
  rfl

include hexpr in
theorem callWith_covers :
    Covers (callWith expr) Call.terminals id (fun call => call.depth ≤ n) fun _ => True := by
  rintro c ⟨receiver, name, left, args, right⟩ hdepth hread -
  cases receiver with
  | none =>
    simp only [Call.terminals, List.forall_mem_cons, List.forall_mem_append] at hread ⊢
    refine bind_of_ok (receiver?_declines (by simp [Terminal.token])) ?_
    refine bind_of_ok (ident_before hread.1 _) ?_
    refine bind_of_ok (expectSymbol_before ..) ?_
    refine bind_of_ok ((argsWith_covers hexpr).append hdepth hread.2.2.1 rfl) ?_
    exact bind_of_ok (expectSymbol_before ..) rfl
  | some receiver =>
    simp only [Call.terminals, List.forall_mem_cons, List.forall_mem_append] at hread ⊢
    refine bind_of_ok (receiver?_before hread.1 ..) ?_
    refine bind_of_ok (ident_before hread.2.2.1 _) ?_
    refine bind_of_ok (expectSymbol_before ..) ?_
    refine bind_of_ok ((argsWith_covers hexpr).append hdepth hread.2.2.2.2.1 rfl) ?_
    exact bind_of_ok (expectSymbol_before ..) rfl

include hexpr in
theorem indexWith_covers :
    Covers (indexWith expr) Index.terminals id (fun index => index.depth ≤ n) fun _ => True := by
  rintro c ⟨left, e, right⟩ hdepth hread -
  simp only [Index.terminals, List.forall_mem_cons, List.forall_mem_append] at hread ⊢
  refine bind_of_ok (expectSymbol_before ..) ?_
  refine bind_of_ok (hexpr.append hdepth hread.2.1 (endsExpr_before (by decide) ..)) ?_
  exact bind_of_ok (expectSymbol_before ..) rfl

include hexpr in
theorem nameTerm_call {call : Call} (hdepth : call.depth ≤ n)
    (hread : ∀ x ∈ call.terminals, x.ReadAs c.source) :
    nameTerm expr (c.before call.terminals) = .ok (.call call, c) := by
  have hcall := callWith_covers hexpr c call hdepth hread trivial
  refine bind_of_ok rfl ?_
  obtain ⟨receiver, name, left, args, right⟩ := call
  cases receiver with
  | none => exact bind_of_ok hcall rfl
  | some receiver => exact bind_of_ok hcall rfl

include hexpr in
theorem nameTerm_element {name : Ident} {index : Index} (hdepth : index.depth ≤ n)
    (hread : ∀ x ∈ name.terminal :: index.terminals, x.ReadAs c.source) :
    nameTerm expr (c.before (name.terminal :: index.terminals)) = .ok (.element name index, c) := by
  rw [List.forall_mem_cons] at hread
  have hindex := indexWith_covers hexpr c index hdepth hread.2 trivial
  refine bind_of_ok rfl ?_
  obtain ⟨left, e, right⟩ := index
  exact bind_of_ok (ident_before hread.1 _) (bind_of_ok hindex rfl)

theorem nameTerm_var {name : Ident} (hread : name.terminal.ReadAs c.source)
    (hnext : c.current.kind.EndsName) :
    nameTerm expr (c.before [name.terminal]) = .ok (.var name, c) := by
  refine bind_of_ok rfl ?_
  rw [Cursor.peek_before_cons, Cursor.before_nil]
  generalize c.current.kind = kind at hnext
  split
  · exact absurd rfl hnext.1
  · exact absurd rfl hnext.2.1
  · exact absurd rfl hnext.2.2
  · exact bind_of_ok (ident_before hread []) rfl

include hexpr hterm in
theorem termWith_covers :
    Covers (termWith expr term) Term.terminals id (fun t => t.depth ≤ n + 1) Kind.EndsName := by
  intro c t hdepth hread hnext
  refine bind_of_ok rfl ?_
  cases t with
  | integer value span =>
    exact bind_of_ok (integer_before (hread _ (by simp [Term.terminals]))) rfl
  | string value span =>
    exact bind_of_ok (string_before (hread _ (by simp [Term.terminals]))) rfl
  | named value span => cases value <;> exact bind_of_ok (take_before_cons ..) rfl
  | paren left e right =>
    simp only [Term.terminals, List.forall_mem_cons, List.forall_mem_append] at hread
    refine bind_of_ok (take_before_cons ..) ?_
    refine bind_of_ok (hexpr.append (Nat.le_of_succ_le_succ hdepth) hread.2.1
      (endsExpr_before (by decide) ..)) ?_
    exact bind_of_ok (expectSymbol_before c .rightParen right []) rfl
  | unary op span t =>
    rw [Term.terminals, List.forall_mem_cons] at hread
    have ht := hterm c t (Nat.le_of_succ_le_succ hdepth) hread.2 hnext
    cases op <;> exact bind_of_ok (take_before_cons ..) (bind_of_ok ht rfl)
  | var name => exact nameTerm_var (hread _ (by simp [Term.terminals])) hnext
  | element name index => exact nameTerm_element hexpr (Nat.le_of_succ_le_succ hdepth) hread
  | call call =>
    have hcall := nameTerm_call hexpr (Nat.le_of_succ_le_succ hdepth) hread
    obtain ⟨receiver, name, left, args, right⟩ := call
    cases receiver with
    | none => exact hcall
    | some receiver => exact hcall

end

theorem nested_of_ok {α : Type} {r : Reader α} {result : α × Cursor} (h : r c = .ok result) :
    nested r c = .ok result := by
  simp [nested, h]

theorem expr_term_cover (levels : Nat) :
    Covers (expr levels) Expr.terminals id (fun e => e.depth ≤ levels) Kind.EndsExpr ∧
      Covers (term levels) Term.terminals id (fun t => t.depth ≤ levels) Kind.EndsName := by
  induction levels with
  | zero =>
    refine ⟨fun c e hdepth => ?_, fun c t hdepth => ?_⟩
    · obtain ⟨head, tail⟩ := e
      simp [Expr.depth] at hdepth
    · cases t <;> simp [Term.depth] at hdepth
  | succ levels ih =>
    exact ⟨fun c e hdepth hread hnext => nested_of_ok (exprWith_covers ih.2 c e hdepth hread hnext),
      fun c t hdepth hread hnext => nested_of_ok (termWith_covers ih.1 ih.2 c t hdepth hread hnext)⟩

theorem expr_covers (levels : Nat) :
    Covers (expr levels) Expr.terminals id (fun e => e.depth ≤ levels) Kind.EndsExpr :=
  (expr_term_cover levels).1

/-! ### Statements -/

section

variable {expr : Reader Expr} {statements : Reader Stmts}
  (hexpr : Covers expr Expr.terminals id (fun e => e.depth ≤ n) Kind.EndsExpr)
  (hstatements : Covers statements Stmts.terminals id (fun body => body.depth ≤ n)
    (· = .symbol .rightBrace))

include hexpr in
theorem assignment_before {keyword : Span} {target : Ident} {index : Option Index} {equal : Span}
    {value : Expr} {semicolon : Span}
    (hdepth : (Stmt.assign keyword target index equal value semicolon).depth ≤ n)
    (hread : ∀ x ∈ (Stmt.assign keyword target index equal value semicolon).terminals,
      x.ReadAs c.source) :
    assignment expr (c.before (Stmt.assign keyword target index equal value semicolon).terminals) =
      .ok (.assign keyword target index equal value semicolon, c) := by
  simp only [Stmt.terminals, List.forall_mem_cons, List.forall_mem_append] at hread ⊢
  obtain ⟨-, htarget, hindex, -, hvalue, -⟩ := hread
  have hdepth' := Nat.max_le.1 hdepth
  refine bind_of_ok (expectKeyword_before ..) ?_
  refine bind_of_ok (ident_before htarget _) ?_
  refine bind_of_ok rfl ?_
  have hrest (index : Option Index) : (do
      let equal ← expect (.symbol .equal)
      let value ← expr
      let semicolon ← expect (.symbol .semicolon)
      return Stmt.assign keyword target index equal value semicolon : Reader Stmt)
      (c.before (.symbol .equal equal :: (value.terminals ++ [.symbol .semicolon semicolon]))) =
        .ok (.assign keyword target index equal value semicolon, c) := by
    refine bind_of_ok (expectSymbol_before ..) ?_
    refine bind_of_ok (hexpr.append hdepth'.2 hvalue (endsExpr_before (by decide) ..)) ?_
    exact bind_of_ok (expectSymbol_before ..) rfl
  cases index with
  | none => exact bind_of_ok (pure_apply ..) (hrest none)
  | some index =>
    obtain ⟨left, e, right⟩ := index
    refine bind_of_ok (map_of_ok ?_) (hrest _)
    exact (indexWith_covers hexpr).append hdepth'.1 hindex trivial

include hstatements in
theorem blockWith_covers :
    Covers (blockWith statements) Block.terminals id (fun b => b.depth ≤ n) fun _ => True := by
  rintro c ⟨left, body, right⟩ hdepth hread -
  simp only [Block.terminals, List.forall_mem_cons, List.forall_mem_append] at hread ⊢
  refine bind_of_ok (expectSymbol_before ..) ?_
  refine bind_of_ok (hstatements.append hdepth hread.2.1 rfl) ?_
  exact bind_of_ok (expectSymbol_before ..) rfl

include hstatements in
theorem otherwise_covers :
    Covers (otherwise statements) Otherwise.terminals id (fun no => no.depth ≤ n)
      (· ≠ .keyword .kwElse) := by
  intro c no hdepth hread hnext
  cases no with
  | none => exact bind_of_ok (accept?_of_kind_ne hnext) rfl
  | some keyword block =>
    rw [Otherwise.terminals, List.forall_mem_cons] at hread
    refine bind_of_ok (acceptKeyword?_before ..) ?_
    exact bind_of_ok (blockWith_covers hstatements c block hdepth hread.2 trivial) rfl

include hexpr hstatements in
theorem branch_before {keyword left : Span} {condition : Expr} {right : Span} {yes : Block}
    {no : Otherwise} (hdepth : (Stmt.branch keyword left condition right yes no).depth ≤ n)
    (hread : ∀ x ∈ (Stmt.branch keyword left condition right yes no).terminals,
      x.ReadAs c.source) (hnext : c.current.kind ≠ .keyword .kwElse) :
    branch expr statements (c.before (Stmt.branch keyword left condition right yes no).terminals) =
      .ok (.branch keyword left condition right yes no, c) := by
  simp only [Stmt.terminals, List.forall_mem_cons, List.forall_mem_append] at hread ⊢
  simp only [Stmt.depth, Nat.max_le] at hdepth
  refine bind_of_ok (expectKeyword_before ..) ?_
  refine bind_of_ok (expectSymbol_before ..) ?_
  refine bind_of_ok (hexpr.append hdepth.1 hread.2.2.1 (endsExpr_before (by decide) ..)) ?_
  refine bind_of_ok (expectSymbol_before ..) ?_
  refine bind_of_ok ((blockWith_covers hstatements).append hdepth.2.1 hread.2.2.2.2.1 trivial) ?_
  exact bind_of_ok (otherwise_covers hstatements c no hdepth.2.2 hread.2.2.2.2.2 hnext) rfl

include hexpr hstatements in
theorem loop_before {keyword left : Span} {condition : Expr} {right : Span} {body : Block}
    (hdepth : (Stmt.loop keyword left condition right body).depth ≤ n)
    (hread : ∀ x ∈ (Stmt.loop keyword left condition right body).terminals, x.ReadAs c.source) :
    loop expr statements (c.before (Stmt.loop keyword left condition right body).terminals) =
      .ok (.loop keyword left condition right body, c) := by
  simp only [Stmt.terminals, List.forall_mem_cons, List.forall_mem_append] at hread ⊢
  simp only [Stmt.depth, Nat.max_le] at hdepth
  refine bind_of_ok (expectKeyword_before ..) ?_
  refine bind_of_ok (expectSymbol_before ..) ?_
  refine bind_of_ok (hexpr.append hdepth.1 hread.2.2.1 (endsExpr_before (by decide) ..)) ?_
  refine bind_of_ok (expectSymbol_before ..) ?_
  exact bind_of_ok (blockWith_covers hstatements c body hdepth.2 hread.2.2.2.2 trivial) rfl

include hexpr in
theorem perform_before {keyword : Span} {call : Call} {semicolon : Span} (hdepth : call.depth ≤ n)
    (hread : ∀ x ∈ (Stmt.perform keyword call semicolon).terminals, x.ReadAs c.source) :
    perform expr (c.before (Stmt.perform keyword call semicolon).terminals) =
      .ok (.perform keyword call semicolon, c) := by
  simp only [Stmt.terminals, List.forall_mem_cons, List.forall_mem_append] at hread ⊢
  refine bind_of_ok (expectKeyword_before ..) ?_
  refine bind_of_ok ((callWith_covers hexpr).append hdepth hread.2.1 trivial) ?_
  exact bind_of_ok (expectSymbol_before ..) rfl

include hexpr in
theorem finish_before {keyword : Span} {value : Option Expr} {semicolon : Span}
    (hdepth : (Stmt.finish keyword value semicolon).depth ≤ n)
    (hread : ∀ x ∈ (Stmt.finish keyword value semicolon).terminals, x.ReadAs c.source) :
    finish expr (c.before (Stmt.finish keyword value semicolon).terminals) =
      .ok (.finish keyword value semicolon, c) := by
  simp only [Stmt.terminals, List.forall_mem_cons, List.forall_mem_append] at hread ⊢
  refine bind_of_ok (expectKeyword_before ..) ?_
  refine bind_of_ok rfl ?_
  cases value with
  | none => exact bind_of_ok (pure_apply ..) (bind_of_ok (expectSymbol_before ..) rfl)
  | some e =>
    have hstart :
        (c.before (e.terminals ++ [.symbol .semicolon semicolon])).current.kind.OpensExpr :=
      e.starts_terminals.append.current c
    refine (congrFun (if_neg hstart.2) _).trans ?_
    have hnext := endsExpr_before (show Kind.EndsExpr (.symbol .semicolon) by decide) c semicolon []
    refine bind_of_ok (map_of_ok (hexpr.append hdepth hread.2.1 hnext)) ?_
    exact bind_of_ok (expectSymbol_before ..) rfl

include hexpr hstatements in
theorem statement?_covers :
    Covers (statement? expr statements) Stmt.terminals some (fun s => s.depth ≤ n)
      (· ≠ .keyword .kwElse) := by
  intro c s hdepth hread hnext
  refine bind_of_ok rfl ?_
  cases s with
  | assign keyword target index equal value semicolon =>
    exact map_of_ok (assignment_before hexpr hdepth hread)
  | branch keyword left condition right yes no =>
    exact map_of_ok (branch_before hexpr hstatements hdepth hread hnext)
  | loop keyword left condition right body =>
    exact map_of_ok (loop_before hexpr hstatements hdepth hread)
  | perform keyword call semicolon => exact map_of_ok (perform_before hexpr hdepth hread)
  | finish keyword value semicolon => exact map_of_ok (finish_before hexpr hdepth hread)

theorem statement?_declines (h : c.current.kind = .symbol .rightBrace) :
    statement? expr statements c = .ok (none, c) := by
  refine bind_of_ok rfl ?_
  rw [h]
  rfl

include hexpr hstatements in
theorem statementsWith_covers :
    Covers (statementsWith expr statements) Stmts.terminals id (fun body => body.depth ≤ n + 1)
      (· = .symbol .rightBrace) := by
  intro c body hdepth hread hnext
  obtain ⟨xs, rfl⟩ : ∃ xs, body = Stmts.ofList xs := ⟨_, body.ofList_toList.symm⟩
  rw [Stmts.terminals_ofList] at hread ⊢
  have hdepth' := Stmts.innerDepth_ofList_le.1 (Nat.le_of_succ_le_succ hdepth)
  have hmany := (statement?_covers hexpr hstatements).many hdepth' hread
    (fun s _ => s.starts_terminals.imp fun _ h => h.1) (by rw [hnext]; decide)
    (statement?_declines hnext)
  exact bind_of_ok hmany rfl

end

theorem statements_covers (levels : Nat) :
    Covers (statements levels) Stmts.terminals id (fun body => body.depth ≤ levels)
      (· = .symbol .rightBrace) := by
  induction levels with
  | zero => exact fun c body hdepth => absurd hdepth (Nat.not_succ_le_zero _)
  | succ levels ih =>
    exact fun c body hdepth hread hnext =>
      nested_of_ok (statementsWith_covers (expr_covers levels) ih c body hdepth hread hnext)

/-! ### Declarations -/

theorem names_covers :
    Covers names (Separated.terminals Ident.terminals) id (fun _ => True)
      (· ≠ .symbol .comma) := by
  intro c xs _ hread hnext
  have hident : Covers (some <$> ident) Ident.terminals some (fun _ => True) fun _ => True :=
    fun c name _ h _ => map_of_ok (ident_before (h _ (by simp [Ident.terminals])) [])
  have hnames := hident.separated? trivial c xs (fun _ _ => trivial) hread ⟨trivial, hnext⟩
  exact bind_of_ok hnames rfl

theorem classVar?_covers :
    Covers classVar? ClassVarDec.terminals some (fun _ => True) fun _ => True := by
  rintro c ⟨kind, keyword, type, names, semicolon⟩ - hread -
  simp only [ClassVarDec.terminals, List.forall_mem_cons, List.forall_mem_append] at hread
  obtain ⟨-, htype, hnames, -⟩ := hread
  refine bind_of_ok rfl ?_
  cases kind <;>
    exact bind_of_ok (take_before_cons ..) (bind_of_ok (varType_covers.append trivial htype trivial)
      (bind_of_ok (names_covers.append trivial hnames (by simp [Terminal.token]))
        (bind_of_ok (expectSymbol_before c .semicolon semicolon []) rfl)))

theorem var?_covers : Covers var? VarDec.terminals some (fun _ => True) fun _ => True := by
  rintro c ⟨keyword, type, names, semicolon⟩ - hread -
  simp only [VarDec.terminals, List.forall_mem_cons, List.forall_mem_append] at hread
  obtain ⟨-, htype, hnames, -⟩ := hread
  refine bind_of_ok (acceptKeyword?_before ..) ?_
  refine bind_of_ok (varType_covers.append trivial htype trivial) ?_
  refine bind_of_ok (names_covers.append trivial hnames (by simp [Terminal.token])) ?_
  exact bind_of_ok (expectSymbol_before ..) rfl

theorem param?_covers : Covers param? Param.terminals some (fun _ => True) fun _ => True := by
  rintro c ⟨type, name⟩ - hread -
  simp only [Param.terminals, List.forall_mem_append] at hread
  have hstart : VarType.starts (c.before (type.terminals ++ [name.terminal])).current.kind = true :=
    type.starts_terminals.append.current c
  refine bind_of_ok rfl ?_
  refine (congrFun (if_pos hstart) _).trans ?_
  refine bind_of_ok (varType_covers.append trivial hread.1 trivial) ?_
  exact bind_of_ok (ident_before (hread.2 _ (by simp)) []) rfl

theorem params_covers :
    Covers params paramTerminals id (fun _ => True) (· = .symbol .rightParen) := by
  intro c params _ hread hnext
  cases params with
  | none =>
    have hdeclines : param? c = .ok (none, c) := by
      refine bind_of_ok rfl ?_
      rw [hnext]
      rfl
    exact bind_of_ok hdeclines rfl
  | some xs =>
    exact param?_covers.separated? trivial c xs (fun _ _ => trivial) hread
      ⟨trivial, by rw [hnext]; decide⟩

theorem Stmts.current_before_ne_var (body : Stmts) (c : Cursor) (right : Span) :
    (c.before (body.terminals ++ [.symbol .rightBrace right])).current.kind ≠ .keyword .kwVar := by
  rw [Cursor.before_append, ← body.ofList_toList, Stmts.terminals_ofList]
  refine next_before_flatMap (fun (s : Stmt) _ => s.starts_terminals.imp fun _ h => h.2) ?_
  simp [Terminal.token]

theorem body_covers (levels : Nat) :
    Covers (body levels) Body.terminals id (fun b => b.statements.depth ≤ levels)
      fun _ => True := by
  rintro c ⟨left, vars, statements, right⟩ hdepth hread -
  simp only [Body.terminals, List.forall_mem_cons, List.forall_mem_append] at hread
  obtain ⟨-, hvars, hstatements, -⟩ := hread
  have hdeclines := accept?_of_kind_ne (Stmts.current_before_ne_var statements c right)
  refine bind_of_ok (expectSymbol_before ..) ?_
  refine bind_of_ok (var?_covers.manyAppend (fun _ _ => trivial) hvars (fun _ _ => .cons trivial)
    trivial (bind_of_ok hdeclines rfl)) ?_
  refine bind_of_ok ((statements_covers levels).append hdepth hstatements rfl) ?_
  exact bind_of_ok (expectSymbol_before ..) rfl

theorem subroutine?_covers (levels : Nat) :
    Covers (subroutine? levels) Subroutine.terminals some (fun sub => sub.depth ≤ levels)
      fun _ => True := by
  rintro c ⟨kind, keyword, returns, name, left, params, right, body⟩ hdepth hread -
  simp only [Subroutine.terminals, List.forall_mem_cons, List.forall_mem_append] at hread
  obtain ⟨-, hreturns, hname, -, hparams, -, hbody⟩ := hread
  refine bind_of_ok rfl ?_
  have hrest : (do
      let keyword ← take
      let returns ← returnType
      let name ← ident
      let left ← expect (.symbol .leftParen)
      let params ← Reader.params
      let right ← expect (.symbol .rightParen)
      return some ⟨kind, keyword, returns, name, left, params, right, ← Reader.body levels⟩ :
        Reader (Option Subroutine))
      (c.before (Subroutine.mk kind keyword returns name left params right body).terminals) =
        .ok (some ⟨kind, keyword, returns, name, left, params, right, body⟩, c) := by
    refine bind_of_ok (take_before_cons ..) ?_
    refine bind_of_ok (returnType_covers.append trivial hreturns trivial) ?_
    refine bind_of_ok (ident_before hname _) ?_
    refine bind_of_ok (expectSymbol_before ..) ?_
    refine bind_of_ok (params_covers.append trivial hparams rfl) ?_
    refine bind_of_ok (expectSymbol_before ..) ?_
    exact bind_of_ok (body_covers levels c body hdepth hbody trivial) rfl
  cases kind <;> exact hrest

theorem classVar?_declines (subs : List Subroutine) (c : Cursor) (right : Span) :
    classVar? (c.before (subs.flatMap Subroutine.terminals ++ [.symbol .rightBrace right])) =
      .ok (none, c.before (subs.flatMap Subroutine.terminals ++ [.symbol .rightBrace right])) := by
  have hkind : ClassVarKind.ofKind? ((c.before [.symbol .rightBrace right]).before
      (subs.flatMap Subroutine.terminals)).current.kind = none :=
    next_before_flatMap (fun (sub : Subroutine) _ => sub.starts_terminals) rfl
  refine bind_of_ok rfl ?_
  rw [Cursor.before_append, hkind]
  rfl

/-- Every class that the levels are enough for is read from its own terminals. -/
theorem classDecl_covers (levels : Nat) :
    Covers (classDecl levels) ClassDecl.terminals id (fun decl => decl.depth ≤ levels)
      fun _ => True := by
  rintro c ⟨keyword, name, left, vars, subroutines, right⟩ hdepth hread -
  simp only [ClassDecl.terminals, List.forall_mem_cons, List.forall_mem_append] at hread
  obtain ⟨-, hname, -, hvars, hsubs, -⟩ := hread
  refine bind_of_ok (expectKeyword_before ..) ?_
  refine bind_of_ok (ident_before hname _) ?_
  refine bind_of_ok (expectSymbol_before ..) ?_
  refine bind_of_ok (classVar?_covers.manyAppend (fun _ _ => trivial) hvars
    (fun _ _ => .cons trivial) trivial (classVar?_declines subroutines c right)) ?_
  refine bind_of_ok ((subroutine?_covers levels).manyAppend (ClassDecl.depth_le.1 hdepth) hsubs
    (fun _ _ => .cons trivial) trivial rfl) ?_
  exact bind_of_ok (expectSymbol_before ..) rfl

end Reader

end Jack
