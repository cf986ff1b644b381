import Jack.Proofs.Tree.Reading

/-!
What a reader has taken when it succeeds: the terminals of the tree that it returns, which is not
nested deeper than the levels that were left.
-/

namespace Jack.Reader

variable {α β : Type} {c : Cursor} {n : Nat}

/-! ### Names, constants and types -/

theorem ident_takes : Takes ident Ident.terminals fun _ => True := by
  intro c hc
  refine Gives.expect.bind fun span c₁ h₁ => ?_
  refine Gives.textOf.bind fun text c₂ h₂ => ?_
  obtain ⟨hcurrent, rfl⟩ := h₁
  obtain ⟨htext, rfl⟩ := h₂
  rw [Cursor.source_advance] at htext
  exact .pure ⟨.of_current hc hcurrent htext, trivial⟩

theorem integer_takes :
    Takes integer (fun x => [.integer x.1 x.2]) fun _ => True := by
  intro c hc
  refine Gives.expect.bind fun span c₁ h₁ => ?_
  refine Gives.textOf.bind fun text c₂ h₂ => ?_
  obtain ⟨hcurrent, rfl⟩ := h₁
  obtain ⟨htext, rfl⟩ := h₂
  rw [Cursor.source_advance] at htext
  split
  · rename_i value hvalue
    exact .pure ⟨.of_current hc hcurrent ⟨text, htext, hvalue⟩, trivial⟩
  · exact .fail

theorem string_takes : Takes string (fun x => [.string x.1 x.2]) fun _ => True := by
  intro c hc
  refine Gives.expect.bind fun span c₁ h₁ => ?_
  refine Gives.textOf.bind fun text c₂ h₂ => ?_
  obtain ⟨hcurrent, rfl⟩ := h₁
  obtain ⟨htext, rfl⟩ := h₂
  rw [Cursor.source_advance] at htext
  exact .pure ⟨.of_current hc hcurrent htext, trivial⟩

theorem keyword_of_ofKind? {kind : Kind} {value : NamedConstant}
    (h : NamedConstant.ofKind? kind = some value) : kind = .keyword value.keyword := by
  unfold NamedConstant.ofKind? at h
  split at h <;> simp_all <;> subst h <;> rfl

theorem keyword_of_classVarKind {kind : Kind} {value : ClassVarKind}
    (h : ClassVarKind.ofKind? kind = some value) : kind = .keyword value.keyword := by
  unfold ClassVarKind.ofKind? at h
  split at h <;> simp_all <;> subst h <;> rfl

theorem keyword_of_subroutineKind {kind : Kind} {value : SubroutineKind}
    (h : SubroutineKind.ofKind? kind = some value) : kind = .keyword value.keyword := by
  unfold SubroutineKind.ofKind? at h
  split at h <;> simp_all <;> subst h <;> rfl

theorem keyword_of_ofKeyword? {k : Keyword} {type : Primitive}
    (h : Primitive.ofKeyword? k = some type) : k = type.keyword := by
  unfold Primitive.ofKeyword? at h
  split at h <;> simp_all <;> subst h <;> rfl

theorem symbol_of_ofKind? {kind : Kind} {op : BinaryOp} (h : BinaryOp.ofKind? kind = some op) :
    kind = .symbol op.symbol := by
  unfold BinaryOp.ofKind? at h
  split at h
  · rename_i s
    unfold BinaryOp.ofSymbol? at h
    split at h <;> simp_all <;> subst h <;> rfl
  · simp at h

theorem varType_takes : Takes varType VarType.terminals fun _ => True := by
  intro c hc
  refine .bindCurrent ?_
  split
  · exact (ident_takes c hc).bind fun name c₁ h₁ => .pure h₁
  · rename_i k hk
    split
    · rename_i type htype
      obtain rfl := keyword_of_ofKeyword? htype
      exact (Gives.takeKeyword hc hk).bind fun span c₁ h₁ => .pure ⟨h₁, trivial⟩
    · exact .unexpected
  · exact .unexpected

theorem returnType_takes : Takes returnType ReturnType.terminals fun _ => True := by
  intro c hc
  refine Gives.accept?.bind fun found c₁ h₁ => ?_
  cases found with
  | some span => exact .pure ⟨h₁.2 ▸ .of_current hc h₁.1 trivial, trivial⟩
  | none =>
    obtain rfl : c₁ = c := h₁.2
    exact (varType_takes c₁ hc).bind fun type c₂ h₂ => .pure h₂

/-! ### Expressions -/

section

variable {expr : Reader Expr} {term : Reader Term}
  (hexpr : Takes expr Expr.terminals fun e => e.depth ≤ n)
  (hterm : Takes term Term.terminals fun t => t.depth ≤ n)

include hterm in
theorem opTerm?_offers : Offers (opTerm? term) opTermTerminals fun x => x.2.2.depth ≤ n := by
  intro c hc
  refine .bindCurrent ?_
  split
  · rename_i op hop
    refine (Gives.takeSymbol hc (symbol_of_ofKind? hop)).bind fun span c₁ h₁ => ?_
    exact (hterm c₁ h₁.closed).bind fun t c₂ h₂ => .pure ⟨h₁.cons h₂.1, h₂.2⟩
  · exact .pure rfl

include hterm in
theorem exprWith_takes : Takes (exprWith term) Expr.terminals fun e => e.depth ≤ n + 1 := by
  intro c hc
  refine (hterm c hc).bind fun head c₁ h₁ => ?_
  refine ((opTerm?_offers hterm).many c₁ h₁.1.closed).bind fun tail c₂ h₂ => ?_
  refine .pure ⟨?_, ?_⟩
  · rw [Expr.terminals, OpTerms.terminals_ofList]
    exact h₁.1.trans h₂.1
  · have htail := OpTerms.depth_ofList_le.2 h₂.2
    have hhead := h₁.2
    simp only [Expr.depth]
    omega

include hexpr in
theorem argument?_offers : Offers (argument? expr) Expr.terminals fun e => e.depth ≤ n := by
  intro c hc
  refine .bindCurrent ?_
  split
  · exact .pure rfl
  · exact (hexpr c hc).bind fun e c₁ h₁ => .pure h₁

include hexpr in
theorem argsWith_takes : Takes (argsWith expr) Args.terminals fun args => args.depth ≤ n := by
  intro c hc
  refine ((argument?_offers hexpr).separated? c hc).bind fun found c₁ h₁ => .pure ?_
  cases found with
  | none =>
    obtain rfl : c₁ = c := h₁
    exact ⟨.refl hc, Nat.zero_le n⟩
  | some xs => exact ⟨Args.terminals_ofSeparated xs ▸ h₁.1, Args.depth_ofSeparated_le.2 h₁.2⟩

theorem receiver?_offers :
    Offers receiver? (fun x => [x.1.terminal, .symbol .dot x.2]) fun _ => True := by
  intro c hc
  refine .bindGet ?_
  split
  · refine (ident_takes c hc).bind fun name c₁ h₁ => ?_
    exact (Gives.expectSymbol h₁.1.closed .dot).bind fun dot c₂ h₂ => .pure ⟨h₁.1.trans h₂, trivial⟩
  · exact .pure rfl

include hexpr in
theorem callWith_takes : Takes (callWith expr) Call.terminals fun call => call.depth ≤ n := by
  intro c hc
  refine (receiver?_offers c hc).bind fun receiver c₁ h₁ => ?_
  have hc₁ : c₁.Closed := by
    cases receiver with
    | none => exact h₁ ▸ hc
    | some x => exact h₁.1.closed
  refine (ident_takes c₁ hc₁).bind fun name c₂ h₂ => ?_
  refine (Gives.expectSymbol h₂.1.closed .leftParen).bind fun left c₃ h₃ => ?_
  refine (argsWith_takes hexpr c₃ h₃.closed).bind fun args c₄ h₄ => ?_
  refine (Gives.expectSymbol h₄.1.closed .rightParen).bind fun right c₅ h₅ => .pure ⟨?_, h₄.2⟩
  have hcall := h₂.1.trans (h₃.cons (h₄.1.trans h₅))
  cases receiver with
  | none =>
    obtain rfl : c₁ = c := h₁
    exact hcall
  | some x => exact h₁.1.trans hcall

include hexpr in
theorem indexWith_takes : Takes (indexWith expr) Index.terminals fun index => index.depth ≤ n := by
  intro c hc
  refine (Gives.expectSymbol hc .leftBracket).bind fun left c₁ h₁ => ?_
  refine (hexpr c₁ h₁.closed).bind fun e c₂ h₂ => ?_
  refine (Gives.expectSymbol h₂.1.closed .rightBracket).bind fun right c₃ h₃ => ?_
  exact .pure ⟨h₁.cons (h₂.1.trans h₃), h₂.2⟩

include hexpr in
theorem nameTerm_takes : Takes (nameTerm expr) Term.terminals fun t => t.depth ≤ n + 1 := by
  intro c hc
  refine .bindGet ?_
  split
  · exact (callWith_takes hexpr c hc).bind fun call c₁ h₁ => .pure ⟨h₁.1, Nat.succ_le_succ h₁.2⟩
  · exact (callWith_takes hexpr c hc).bind fun call c₁ h₁ => .pure ⟨h₁.1, Nat.succ_le_succ h₁.2⟩
  · refine (ident_takes c hc).bind fun name c₁ h₁ => ?_
    exact (indexWith_takes hexpr c₁ h₁.1.closed).bind fun index c₂ h₂ =>
      .pure ⟨h₁.1.cons h₂.1, Nat.succ_le_succ h₂.2⟩
  · exact (ident_takes c hc).bind fun name c₁ h₁ => .pure ⟨h₁.1, Nat.le_add_left 1 n⟩

include hexpr hterm in
theorem termWith_takes : Takes (termWith expr term) Term.terminals fun t => t.depth ≤ n + 1 := by
  intro c hc
  refine .bindCurrent ?_
  split
  · exact (integer_takes c hc).bind fun x c₁ h₁ => .pure ⟨h₁.1, Nat.le_add_left 1 n⟩
  · exact (string_takes c hc).bind fun x c₁ h₁ => .pure ⟨h₁.1, Nat.le_add_left 1 n⟩
  · rename_i k hk
    unfold Grammar.constantTerm
    split
    · rename_i value hvalue
      rw [keyword_of_ofKind? hvalue] at hk
      exact (Gives.takeKeyword hc hk).bind fun span c₁ h₁ => .pure ⟨h₁, Nat.le_add_left 1 n⟩
    · exact .unexpected
  · rename_i hs
    refine (Gives.takeSymbol hc hs).bind fun left c₁ h₁ => ?_
    refine (hexpr c₁ h₁.closed).bind fun e c₂ h₂ => ?_
    refine (Gives.expectSymbol h₂.1.closed .rightParen).bind fun right c₃ h₃ => ?_
    exact .pure ⟨h₁.cons (h₂.1.trans h₃), Nat.succ_le_succ h₂.2⟩
  · rename_i hs
    refine (Gives.takeSymbol hc hs).bind fun span c₁ h₁ => ?_
    exact (hterm c₁ h₁.closed).bind fun t c₂ h₂ => .pure ⟨h₁.cons h₂.1, Nat.succ_le_succ h₂.2⟩
  · rename_i hs
    refine (Gives.takeSymbol hc hs).bind fun span c₁ h₁ => ?_
    exact (hterm c₁ h₁.closed).bind fun t c₂ h₂ => .pure ⟨h₁.cons h₂.1, Nat.succ_le_succ h₂.2⟩
  · exact nameTerm_takes hexpr c hc
  · exact .unexpected

end

theorem Gives.nested {α : Type} {r : Reader α} {c : Cursor} {post : α → Cursor → Prop}
    (h : Gives r c post) : Gives (nested r) c post := by
  intro a c' hr
  simp only [Reader.nested] at hr
  split at hr
  · rename_i result hresult
    exact h a c' (hresult.trans hr)
  · simp at hr

theorem expr_term_take (levels : Nat) :
    Takes (expr levels) Expr.terminals (fun e => e.depth ≤ levels) ∧
      Takes (term levels) Term.terminals fun t => t.depth ≤ levels := by
  induction levels with
  | zero => exact ⟨fun c _ => .fail, fun c _ => .fail⟩
  | succ levels ih =>
    exact ⟨fun c hc => (exprWith_takes ih.2 c hc).nested,
      fun c hc => (termWith_takes ih.1 ih.2 c hc).nested⟩

theorem expr_takes (levels : Nat) :
    Takes (expr levels) Expr.terminals fun e => e.depth ≤ levels := (expr_term_take levels).1

/-! ### Statements -/

theorem Gives.bindIte {p : Prop} [Decidable p] {r s : Reader α} {k : α → Reader β}
    {post : β → Cursor → Prop} (h : Gives ((if p then r else s) >>= k) c post) :
    Gives (if p then r >>= k else s >>= k) c post := by
  split <;> simp_all

section

variable {expr : Reader Expr} {statements : Reader Stmts}
  (hexpr : Takes expr Expr.terminals fun e => e.depth ≤ n)
  (hstatements : Takes statements Stmts.terminals fun body => body.depth ≤ n)

include hexpr in
theorem assignment_takes : Takes (assignment expr) Stmt.terminals fun s => s.depth ≤ n := by
  intro c hc
  refine (Gives.expectKeyword hc .kwLet).bind fun keyword c₁ h₁ => ?_
  refine (ident_takes c₁ h₁.closed).bind fun target c₂ h₂ => .bindCurrent ?_
  have hindex : Gives (if c₂.current.kind = .symbol .leftBracket then some <$> indexWith expr
      else pure none) c₂ fun index c₃ =>
        Took c₂ (index.elim [] Index.terminals) c₃ ∧ index.elim 0 Index.depth ≤ n := by
    split
    · exact .map (indexWith_takes hexpr c₂ h₂.1.closed)
    · exact .pure ⟨.refl h₂.1.closed, Nat.zero_le n⟩
  refine .bindIte (hindex.bind fun index c₃ h₃ => ?_)
  refine (Gives.expectSymbol h₃.1.closed .equal).bind fun equal c₄ h₄ => ?_
  refine (hexpr c₄ h₄.closed).bind fun value c₅ h₅ => ?_
  refine (Gives.expectSymbol h₅.1.closed .semicolon).bind fun semicolon c₆ h₆ => ?_
  have htook := h₁.cons (h₂.1.cons (h₃.1.trans (h₄.cons (h₅.1.trans h₆))))
  have hdepth := Nat.max_le.2 ⟨h₃.2, h₅.2⟩
  cases index with
  | none => exact .pure ⟨htook, hdepth⟩
  | some i => exact .pure ⟨htook, hdepth⟩

include hstatements in
theorem blockWith_takes : Takes (blockWith statements) Block.terminals fun b => b.depth ≤ n := by
  intro c hc
  refine (Gives.expectSymbol hc .leftBrace).bind fun left c₁ h₁ => ?_
  refine (hstatements c₁ h₁.closed).bind fun body c₂ h₂ => ?_
  refine (Gives.expectSymbol h₂.1.closed .rightBrace).bind fun right c₃ h₃ => ?_
  exact .pure ⟨h₁.cons (h₂.1.trans h₃), h₂.2⟩

include hstatements in
theorem otherwise_takes :
    Takes (otherwise statements) Otherwise.terminals fun no => no.depth ≤ n := by
  intro c hc
  refine Gives.accept?.bind fun found c₁ h₁ => ?_
  cases found with
  | none =>
    obtain rfl : c₁ = c := h₁.2
    exact .pure ⟨.refl hc, Nat.zero_le n⟩
  | some keyword =>
    have htook : Took c [.keyword .kwElse keyword] c₁ := h₁.2 ▸ .of_current hc h₁.1 trivial
    exact (blockWith_takes hstatements c₁ htook.closed).bind fun block c₂ h₂ =>
      .pure ⟨htook.cons h₂.1, h₂.2⟩

include hexpr hstatements in
theorem branch_takes : Takes (branch expr statements) Stmt.terminals fun s => s.depth ≤ n := by
  intro c hc
  refine (Gives.expectKeyword hc .kwIf).bind fun keyword c₁ h₁ => ?_
  refine (Gives.expectSymbol h₁.closed .leftParen).bind fun left c₂ h₂ => ?_
  refine (hexpr c₂ h₂.closed).bind fun condition c₃ h₃ => ?_
  refine (Gives.expectSymbol h₃.1.closed .rightParen).bind fun right c₄ h₄ => ?_
  refine (blockWith_takes hstatements c₄ h₄.closed).bind fun yes c₅ h₅ => ?_
  refine (otherwise_takes hstatements c₅ h₅.1.closed).bind fun no c₆ h₆ => .pure ⟨?_, ?_⟩
  · exact h₁.cons (h₂.cons (h₃.1.trans (h₄.cons (h₅.1.trans h₆.1))))
  · exact Nat.max_le.2 ⟨h₃.2, Nat.max_le.2 ⟨h₅.2, h₆.2⟩⟩

include hexpr hstatements in
theorem loop_takes : Takes (loop expr statements) Stmt.terminals fun s => s.depth ≤ n := by
  intro c hc
  refine (Gives.expectKeyword hc .kwWhile).bind fun keyword c₁ h₁ => ?_
  refine (Gives.expectSymbol h₁.closed .leftParen).bind fun left c₂ h₂ => ?_
  refine (hexpr c₂ h₂.closed).bind fun condition c₃ h₃ => ?_
  refine (Gives.expectSymbol h₃.1.closed .rightParen).bind fun right c₄ h₄ => ?_
  refine (blockWith_takes hstatements c₄ h₄.closed).bind fun body c₅ h₅ => .pure ⟨?_, ?_⟩
  · exact h₁.cons (h₂.cons (h₃.1.trans (h₄.cons h₅.1)))
  · exact Nat.max_le.2 ⟨h₃.2, h₅.2⟩

include hexpr in
theorem perform_takes : Takes (perform expr) Stmt.terminals fun s => s.depth ≤ n := by
  intro c hc
  refine (Gives.expectKeyword hc .kwDo).bind fun keyword c₁ h₁ => ?_
  refine (callWith_takes hexpr c₁ h₁.closed).bind fun call c₂ h₂ => ?_
  refine (Gives.expectSymbol h₂.1.closed .semicolon).bind fun semicolon c₃ h₃ => ?_
  exact .pure ⟨h₁.cons (h₂.1.trans h₃), h₂.2⟩

include hexpr in
theorem finish_takes : Takes (finish expr) Stmt.terminals fun s => s.depth ≤ n := by
  intro c hc
  refine (Gives.expectKeyword hc .kwReturn).bind fun keyword c₁ h₁ => .bindCurrent ?_
  have hvalue : Gives (if c₁.current.kind = .symbol .semicolon then pure none
      else some <$> expr) c₁ fun value c₂ =>
        Took c₁ (value.elim [] Expr.terminals) c₂ ∧ value.elim 0 Expr.depth ≤ n := by
    split
    · exact .pure ⟨.refl h₁.closed, Nat.zero_le n⟩
    · exact .map (hexpr c₁ h₁.closed)
  refine .bindIte (hvalue.bind fun value c₂ h₂ => ?_)
  refine (Gives.expectSymbol h₂.1.closed .semicolon).bind fun semicolon c₃ h₃ => ?_
  have htook := h₁.cons (h₂.1.trans h₃)
  cases value with
  | none => exact .pure ⟨htook, h₂.2⟩
  | some e => exact .pure ⟨htook, h₂.2⟩

include hexpr hstatements in
theorem statement?_offers :
    Offers (statement? expr statements) Stmt.terminals fun s => s.depth ≤ n := by
  intro c hc
  refine .bindCurrent ?_
  split
  · exact (assignment_takes hexpr).offers c hc
  · exact (branch_takes hexpr hstatements).offers c hc
  · exact (loop_takes hexpr hstatements).offers c hc
  · exact (perform_takes hexpr).offers c hc
  · exact (finish_takes hexpr).offers c hc
  · exact .pure rfl

include hexpr hstatements in
theorem statementsWith_takes :
    Takes (statementsWith expr statements) Stmts.terminals fun body => body.depth ≤ n + 1 := by
  intro c hc
  refine ((statement?_offers hexpr hstatements).many c hc).bind fun body c₁ h₁ => .pure ⟨?_, ?_⟩
  · exact Stmts.terminals_ofList body ▸ h₁.1
  · exact Nat.succ_le_succ (Stmts.innerDepth_ofList_le.2 h₁.2)

end

theorem statements_takes (levels : Nat) :
    Takes (statements levels) Stmts.terminals fun body => body.depth ≤ levels := by
  induction levels with
  | zero => exact fun c _ => .fail
  | succ levels ih =>
    exact fun c hc => (statementsWith_takes (expr_takes levels) ih c hc).nested

/-! ### Declarations -/

theorem names_takes : Takes names (Separated.terminals Ident.terminals) fun _ => True := by
  intro c hc
  exact (ident_takes.offers.separated c hc).mono fun xs c' h => ⟨h.1, trivial⟩

theorem classVar?_offers : Offers classVar? ClassVarDec.terminals fun _ => True := by
  intro c hc
  refine .bindCurrent ?_
  split
  · rename_i kind hkind
    refine (Gives.takeKeyword hc (keyword_of_classVarKind hkind)).bind fun keyword c₁ h₁ => ?_
    refine (varType_takes c₁ h₁.closed).bind fun type c₂ h₂ => ?_
    refine (names_takes c₂ h₂.1.closed).bind fun names c₃ h₃ => ?_
    refine (Gives.expectSymbol h₃.1.closed .semicolon).bind fun semicolon c₄ h₄ => ?_
    exact .pure ⟨h₁.cons (h₂.1.trans (h₃.1.trans h₄)), trivial⟩
  · exact .pure rfl

theorem var?_offers : Offers var? VarDec.terminals fun _ => True := by
  intro c hc
  refine Gives.accept?.bind fun found c₁ h₁ => ?_
  cases found with
  | none => exact .pure h₁.2
  | some keyword =>
    have htook : Took c [.keyword .kwVar keyword] c₁ := h₁.2 ▸ .of_current hc h₁.1 trivial
    refine (varType_takes c₁ htook.closed).bind fun type c₂ h₂ => ?_
    refine (names_takes c₂ h₂.1.closed).bind fun names c₃ h₃ => ?_
    refine (Gives.expectSymbol h₃.1.closed .semicolon).bind fun semicolon c₄ h₄ => ?_
    exact .pure ⟨htook.cons (h₂.1.trans (h₃.1.trans h₄)), trivial⟩

theorem param?_offers : Offers param? Param.terminals fun _ => True := by
  intro c hc
  refine .bindCurrent ?_
  split
  · refine (varType_takes c hc).bind fun type c₁ h₁ => ?_
    exact (ident_takes c₁ h₁.1.closed).bind fun name c₂ h₂ => .pure ⟨h₁.1.trans h₂.1, trivial⟩
  · exact .pure rfl

theorem params_takes : Takes params paramTerminals fun _ => True := by
  intro c hc
  refine (param?_offers.separated? c hc).mono fun found c' h => ?_
  cases found with
  | none =>
    obtain rfl : c' = c := h
    exact ⟨.refl hc, trivial⟩
  | some xs => exact ⟨h.1, trivial⟩

theorem body_takes (levels : Nat) :
    Takes (body levels) Body.terminals fun b => b.statements.depth ≤ levels := by
  intro c hc
  refine (Gives.expectSymbol hc .leftBrace).bind fun left c₁ h₁ => ?_
  refine (var?_offers.many c₁ h₁.closed).bind fun vars c₂ h₂ => ?_
  refine (statements_takes levels c₂ h₂.1.closed).bind fun body c₃ h₃ => ?_
  refine (Gives.expectSymbol h₃.1.closed .rightBrace).bind fun right c₄ h₄ => ?_
  exact .pure ⟨h₁.cons (h₂.1.trans (h₃.1.trans h₄)), h₃.2⟩

theorem subroutine?_offers (levels : Nat) :
    Offers (subroutine? levels) Subroutine.terminals fun sub => sub.depth ≤ levels := by
  intro c hc
  refine .bindCurrent ?_
  split
  · rename_i kind hkind
    refine (Gives.takeKeyword hc (keyword_of_subroutineKind hkind)).bind fun keyword c₁ h₁ => ?_
    refine (returnType_takes c₁ h₁.closed).bind fun returns c₂ h₂ => ?_
    refine (ident_takes c₂ h₂.1.closed).bind fun name c₃ h₃ => ?_
    refine (Gives.expectSymbol h₃.1.closed .leftParen).bind fun left c₄ h₄ => ?_
    refine (params_takes c₄ h₄.closed).bind fun params c₅ h₅ => ?_
    refine (Gives.expectSymbol h₅.1.closed .rightParen).bind fun right c₆ h₆ => ?_
    refine (body_takes levels c₆ h₆.closed).bind fun body c₇ h₇ => .pure ⟨?_, h₇.2⟩
    exact h₁.cons (h₂.1.trans (h₃.1.cons (h₄.cons (h₅.1.trans (h₆.cons h₇.1)))))
  · exact .pure rfl

/-- A class that is read has taken its own terminals, and fits in the levels. -/
theorem classDecl_takes (levels : Nat) :
    Takes (classDecl levels) ClassDecl.terminals fun decl => decl.depth ≤ levels := by
  intro c hc
  refine (Gives.expectKeyword hc .kwClass).bind fun keyword c₁ h₁ => ?_
  refine (ident_takes c₁ h₁.closed).bind fun name c₂ h₂ => ?_
  refine (Gives.expectSymbol h₂.1.closed .leftBrace).bind fun left c₃ h₃ => ?_
  refine (classVar?_offers.many c₃ h₃.closed).bind fun vars c₄ h₄ => ?_
  refine ((subroutine?_offers levels).many c₄ h₄.1.closed).bind fun subroutines c₅ h₅ => ?_
  refine (Gives.expectSymbol h₅.1.closed .rightBrace).bind fun right c₆ h₆ => .pure ⟨?_, ?_⟩
  · exact h₁.cons (h₂.1.cons (h₃.cons (h₄.1.trans (h₅.1.trans h₆))))
  · exact ClassDecl.depth_le.2 h₅.2

end Jack.Reader
