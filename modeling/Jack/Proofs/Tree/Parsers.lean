import Jack.Proofs.Tree.Readers

/-!
Parsers and readers. A parser keeps the depth in the stream: it enters a level before what is nested
and leaves it behind, and whether a level is left is decided there. A reader counts the levels down
instead. From every depth a parser of the grammar does what the reader does that is given the levels
left there, so that where it succeeds the stream is as deep as before.
-/

namespace Jack

/-- The stream after a reader. What the reader has entered and not left is entered. -/
def Stream.settle {α : Type} (s : Stream) : Except Halt (α × Cursor) → Except SyntaxError α × Stream
  | .ok (a, c) => (.ok a, { s with cursor := c })
  | .error halt =>
    (.error halt.error, { s with cursor := halt.cursor, depth := s.depth + halt.opened })

namespace Parser

variable {α β : Type} {depth : Nat}

/-- From this depth the parser does what the reader does. -/
def Matches (depth : Nat) (x : Parser α) (r : Reader α) : Prop :=
  ∀ s : Stream, s.depth = depth → x s = s.settle (r s.cursor)

/-! ### Steps -/

theorem bind_apply (x : Parser α) (f : α → Parser β) (s : Stream) :
    (x >>= f) s = ExceptT.bindCont f (x s).1 (x s).2 := rfl

namespace Matches

theorem pure (a : α) : Matches depth (Pure.pure a) (Pure.pure a) := fun _ _ => rfl

theorem bind {x : Parser α} {r : Reader α} {f : α → Parser β} {g : α → Reader β}
    (hx : Matches depth x r) (hf : ∀ a, Matches depth (f a) (g a)) :
    Matches depth (x >>= f) (r >>= g) := by
  intro s hs
  have hreader : (r >>= g) s.cursor = Except.bind (r s.cursor) fun found => g found.1 found.2 := rfl
  rw [bind_apply, hreader, hx s hs]
  cases r s.cursor with
  | error halt => rfl
  | ok found => exact hf found.1 { s with cursor := found.2 } hs

theorem map {x : Parser α} {r : Reader α} (f : α → β) (hx : Matches depth x r) :
    Matches depth (f <$> x) (f <$> r) := by
  rw [map_eq_pure_bind, map_eq_pure_bind]
  exact hx.bind fun a => .pure (f a)

theorem ite {p : Prop} [Decidable p] {x y : Parser α} {r q : Reader α} (hx : Matches depth x r)
    (hy : Matches depth y q) : Matches depth (if p then x else y) (if p then r else q) := by
  split
  · exact hx
  · exact hy

theorem iteBind {p : Prop} [Decidable p] {x y : Parser α} {r q : Reader α} {f : α → Parser β}
    {g : α → Reader β} (hx : Matches depth x r) (hy : Matches depth y q)
    (hf : ∀ a, Matches depth (f a) (g a)) :
    Matches depth (if p then x >>= f else y >>= f) (if p then r >>= g else q >>= g) :=
  (hx.bind hf).ite (hy.bind hf)

end Matches

theorem fail_matches (error : Token → SyntaxError) :
    Matches depth (Reads.fail error : Parser α) (Reads.fail error) := fun _ _ => rfl

theorem current_matches : Matches depth Reads.current Reads.current := fun _ _ => rfl

theorem behind_matches : Matches depth Reads.behind Reads.behind := fun _ _ => rfl

theorem take_matches : Matches depth Reads.take Reads.take := fun _ _ => rfl

theorem accept?_matches (kind : Kind) :
    Matches depth (Reads.accept? kind) (Reads.accept? kind) := by
  intro s _
  change accept? kind s = s.settle (Reader.accept? kind s.cursor)
  rw [accept?, Reader.accept?, Stream.accept?]
  cases s.cursor.accept? kind <;> rfl

theorem expect_matches (kind : Kind) : Matches depth (Reads.expect kind) (Reads.expect kind) := by
  intro s _
  change expect kind s = s.settle (Reader.expect kind s.cursor)
  rw [expect, Reader.expect, Stream.expect, Stream.accept?]
  cases s.cursor.accept? kind <;> rfl

theorem textOf_matches (token : Token) :
    Matches depth (Reads.textOf token) (Reads.textOf token) := by
  intro s _
  change textOf token s = s.settle (Reader.textOf token s.cursor)
  rw [textOf, Reader.textOf]
  cases token.text? s.cursor.source <;> rfl

theorem manyFrom_eq {item : Parser (Option α)} {item' : Reader (Option α)}
    (h : Matches depth item item') (rounds : List Token) (seen : List α) (s : Stream)
    (hs : s.depth = depth) :
    manyFrom item seen rounds s = s.settle (Reader.manyFrom item' seen rounds s.cursor) := by
  induction rounds generalizing seen s with
  | nil => rfl
  | cons t rounds ih =>
    rw [manyFrom, Reader.manyFrom, h s hs]
    cases item' s.cursor with
    | error halt => rfl
    | ok found =>
      obtain ⟨found, c⟩ := found
      cases found with
      | none => rfl
      | some a => exact ih (a :: seen) { s with cursor := c } hs

theorem Matches.many {item : Parser (Option α)} {item' : Reader (Option α)}
    (h : Matches depth item item') : Matches depth (Reads.many item) (Reads.many item') :=
  fun s hs => manyFrom_eq h s.cursor.ahead [] s hs

/-! ### Levels -/

/-- What is nested is read one level deeper. The level is left again where that succeeds. -/
theorem Matches.nested {x : Unit → Parser α} {r : Unit → Reader α}
    (h : Matches (depth + 1) (x ()) (r ())) (hdepth : depth < maxDepth) :
    Matches depth (Reads.nested x) (Reads.nested r) := by
  intro s hs
  have henter : enter s = (.ok (), { s with depth := s.depth + 1 }) := by
    rw [enter, Stream.enter, if_pos (hs ▸ hdepth)]
  have hinner := h { s with depth := s.depth + 1 } (congrArg (· + 1) hs)
  change Parser.nested x s = s.settle (Reader.nested (r ()) s.cursor)
  rw [Parser.nested, bind_apply, henter]
  change (x () >>= fun a => leave >>= fun _ => Pure.pure a) { s with depth := s.depth + 1 } = _
  rw [bind_apply, hinner, Reader.nested]
  cases r () s.cursor with
  | ok found => rfl
  | error halt =>
    have hopened : s.depth + 1 + halt.opened = s.depth + (halt.opened + 1) := by omega
    simp only [Stream.settle, ← hopened]
    rfl

/-- At the limit nothing is entered. -/
theorem nested_matches_tooDeep (x : Unit → Parser α) (h : maxDepth ≤ depth) :
    Matches depth (Reads.nested x) Grammar.tooDeep := by
  intro s hs
  have henter : enter s = (.error (.nesting s.cursor.current), s) := by
    rw [enter, Stream.enter, if_neg (hs ▸ Nat.not_lt.2 h)]
  change Parser.nested x s = s.settle (Reader.tooDeep s.cursor)
  rw [Parser.nested, bind_apply, henter]
  rfl

/-- A reader that counts levels down has as many left as the stream and the parser both allow. -/
theorem Matches.level {x : Unit → Parser α} {r g : Nat → Reader α} (fuel : Nat)
    (hzero : r 0 = Grammar.tooDeep)
    (hsucc : ∀ levels, r (levels + 1) = Reads.nested fun _ => g levels)
    (h : Matches (depth + 1) (x ()) (g (min fuel (maxDepth - (depth + 1))))) :
    Matches depth (Reads.nested x) (r (min (fuel + 1) (maxDepth - depth))) := by
  by_cases hdepth : depth < maxDepth
  · have hlevels : min (fuel + 1) (maxDepth - depth) = min fuel (maxDepth - (depth + 1)) + 1 := by
      omega
    rw [hlevels, hsucc]
    exact h.nested hdepth
  · have hlevels : min (fuel + 1) (maxDepth - depth) = 0 := by omega
    rw [hlevels, hzero]
    exact nested_matches_tooDeep x (Nat.not_lt.1 hdepth)

/-! ### The grammar -/

theorem unexpected_matches (hint : String) :
    Matches depth (Grammar.unexpected hint : Parser α) (Grammar.unexpected hint) :=
  fail_matches _

section

variable {item : Parser (Option α)} {item' : Reader (Option α)} (hitem : Matches depth item item')

include hitem

theorem nextItem_matches : Matches depth (Grammar.nextItem item) (Grammar.nextItem item') := by
  apply (accept?_matches (.symbol .comma)).bind
  intro comma
  cases comma with
  | none => exact .pure _
  | some comma =>
    apply hitem.bind
    intro found
    cases found with
    | none => exact unexpected_matches _
    | some a => exact .pure _

theorem separated?_matches :
    Matches depth (Grammar.separated? item) (Grammar.separated? item') := by
  apply hitem.bind
  intro found
  cases found with
  | none => exact .pure _
  | some head => exact (nextItem_matches hitem).many.bind fun tail => .pure _

theorem separated_matches : Matches depth (Grammar.separated item) (Grammar.separated item') := by
  apply (separated?_matches hitem).bind
  intro found
  cases found with
  | none => exact unexpected_matches _
  | some items => exact .pure _

end

theorem ident_matches : Matches depth Grammar.ident Grammar.ident :=
  (expect_matches .identifier).bind fun span =>
    (textOf_matches ⟨.identifier, span⟩).bind fun _ => .pure _

theorem integer_matches : Matches depth Grammar.integer Grammar.integer := by
  apply (expect_matches .integer).bind
  intro span
  apply (textOf_matches ⟨.integer, span⟩).bind
  intro text
  cases wordValue? text with
  | none => exact fail_matches _
  | some value => exact .pure _

theorem string_matches : Matches depth Grammar.string Grammar.string :=
  (expect_matches .string).bind fun span =>
    (textOf_matches ⟨.string, span⟩).bind fun _ => .pure _

theorem namedConstant_matches : Matches depth Grammar.namedConstant Grammar.namedConstant := by
  apply current_matches.bind
  intro t
  cases NamedConstant.ofKind? t.kind with
  | none => exact unexpected_matches _
  | some value => exact take_matches.bind fun span => .pure _

theorem varType_matches : Matches depth Grammar.varType Grammar.varType := by
  apply current_matches.bind
  intro t
  split
  · exact ident_matches.bind fun name => .pure _
  next k _ =>
    cases Primitive.ofKeyword? k with
    | none => exact unexpected_matches _
    | some type => exact take_matches.bind fun span => .pure _
  · exact unexpected_matches _

theorem returnType_matches : Matches depth Grammar.returnType Grammar.returnType := by
  apply (accept?_matches (.keyword .kwVoid)).bind
  intro found
  cases found with
  | none => exact varType_matches.bind fun type => .pure _
  | some span => exact .pure _

section

variable {expr : Parser Expr} {expr' : Reader Expr} (hexpr : Matches depth expr expr')
  {term : Parser Term} {term' : Reader Term} (hterm : Matches depth term term')
  {statements : Parser Stmts} {statements' : Reader Stmts}
  (hstatements : Matches depth statements statements')

include hterm in
theorem opTerm?_matches : Matches depth (Grammar.opTerm? term) (Grammar.opTerm? term') := by
  apply current_matches.bind
  intro t
  cases BinaryOp.ofKind? t.kind with
  | none => exact .pure _
  | some op => exact take_matches.bind fun span => hterm.bind fun t => .pure _

include hterm in
theorem exprWith_matches : Matches depth (Grammar.exprWith term) (Grammar.exprWith term') :=
  hterm.bind fun _ => (opTerm?_matches hterm).many.bind fun _ => .pure _

include hexpr in
theorem argument?_matches :
    Matches depth (Grammar.argument? expr) (Grammar.argument? expr') :=
  current_matches.bind fun _ => (Matches.pure none).ite (hexpr.bind fun _ => .pure _)

include hexpr in
theorem argsWith_matches : Matches depth (Grammar.argsWith expr) (Grammar.argsWith expr') :=
  (separated?_matches (argument?_matches hexpr)).bind fun _ => .pure _

theorem receiver?_matches : Matches depth Grammar.receiver? Grammar.receiver? :=
  behind_matches.bind fun _ => Matches.ite
    (ident_matches.bind fun _ => (expect_matches (.symbol .dot)).bind fun _ => .pure _) (.pure none)

include hexpr in
theorem callWith_matches : Matches depth (Grammar.callWith expr) (Grammar.callWith expr') :=
  receiver?_matches.bind fun _ => ident_matches.bind fun _ =>
    (expect_matches (.symbol .leftParen)).bind fun _ =>
      (argsWith_matches hexpr).bind fun _ =>
        (expect_matches (.symbol .rightParen)).bind fun _ => .pure _

include hexpr in
theorem indexWith_matches : Matches depth (Grammar.indexWith expr) (Grammar.indexWith expr') :=
  (expect_matches (.symbol .leftBracket)).bind fun _ => hexpr.bind fun _ =>
    (expect_matches (.symbol .rightBracket)).bind fun _ => .pure _

include hexpr in
theorem nameTerm_matches : Matches depth (Grammar.nameTerm expr) (Grammar.nameTerm expr') := by
  apply behind_matches.bind
  intro t
  split
  · exact (callWith_matches hexpr).bind fun c => .pure _
  · exact (callWith_matches hexpr).bind fun c => .pure _
  · exact ident_matches.bind fun name =>
      (indexWith_matches hexpr).bind fun index => .pure _
  · exact ident_matches.bind fun name => .pure _

include hexpr in
theorem parenTerm_matches : Matches depth (Grammar.parenTerm expr) (Grammar.parenTerm expr') :=
  take_matches.bind fun _ => hexpr.bind fun _ =>
    (expect_matches (.symbol .rightParen)).bind fun _ => .pure _

include hterm in
theorem unaryTerm_matches (op : UnaryOp) :
    Matches depth (Grammar.unaryTerm term op) (Grammar.unaryTerm term' op) :=
  take_matches.bind fun _ => hterm.bind fun _ => .pure _

theorem constantTerm_matches (k : Keyword) :
    Matches depth (Grammar.constantTerm k) (Grammar.constantTerm k) := by
  unfold Grammar.constantTerm
  cases NamedConstant.ofKind? (.keyword k) with
  | none => exact unexpected_matches _
  | some value => exact take_matches.bind fun span => .pure _

include hexpr hterm in
theorem termWith_matches :
    Matches depth (Grammar.termWith expr term) (Grammar.termWith expr' term') := by
  apply current_matches.bind
  intro t
  split
  · exact integer_matches.bind fun found => .pure _
  · exact string_matches.bind fun found => .pure _
  · exact constantTerm_matches _
  · exact parenTerm_matches hexpr
  · exact unaryTerm_matches hterm .neg
  · exact unaryTerm_matches hterm .not
  · exact nameTerm_matches hexpr
  · exact unexpected_matches _

include hexpr in
theorem assignment_matches :
    Matches depth (Grammar.assignment expr) (Grammar.assignment expr') :=
  (expect_matches (.keyword .kwLet)).bind fun _ => ident_matches.bind fun _ =>
    current_matches.bind fun _ =>
      ((indexWith_matches hexpr).map some).iteBind (.pure none) fun _ =>
        (expect_matches (.symbol .equal)).bind fun _ => hexpr.bind fun _ =>
          (expect_matches (.symbol .semicolon)).bind fun _ => .pure _

include hstatements in
theorem blockWith_matches :
    Matches depth (Grammar.blockWith statements) (Grammar.blockWith statements') :=
  (expect_matches (.symbol .leftBrace)).bind fun _ => hstatements.bind fun _ =>
    (expect_matches (.symbol .rightBrace)).bind fun _ => .pure _

include hstatements in
theorem otherwise_matches :
    Matches depth (Grammar.otherwise statements) (Grammar.otherwise statements') := by
  apply (accept?_matches (.keyword .kwElse)).bind
  intro found
  cases found with
  | none => exact .pure _
  | some keyword => exact (blockWith_matches hstatements).bind fun b => .pure _

include hexpr hstatements in
theorem branch_matches :
    Matches depth (Grammar.branch expr statements) (Grammar.branch expr' statements') :=
  (expect_matches (.keyword .kwIf)).bind fun _ =>
    (expect_matches (.symbol .leftParen)).bind fun _ => hexpr.bind fun _ =>
      (expect_matches (.symbol .rightParen)).bind fun _ =>
        (blockWith_matches hstatements).bind fun _ =>
          (otherwise_matches hstatements).bind fun _ => .pure _

include hexpr hstatements in
theorem loop_matches :
    Matches depth (Grammar.loop expr statements) (Grammar.loop expr' statements') :=
  (expect_matches (.keyword .kwWhile)).bind fun _ =>
    (expect_matches (.symbol .leftParen)).bind fun _ => hexpr.bind fun _ =>
      (expect_matches (.symbol .rightParen)).bind fun _ =>
        (blockWith_matches hstatements).bind fun _ => .pure _

include hexpr in
theorem perform_matches : Matches depth (Grammar.perform expr) (Grammar.perform expr') :=
  (expect_matches (.keyword .kwDo)).bind fun _ => (callWith_matches hexpr).bind fun _ =>
    (expect_matches (.symbol .semicolon)).bind fun _ => .pure _

include hexpr in
theorem finish_matches : Matches depth (Grammar.finish expr) (Grammar.finish expr') :=
  (expect_matches (.keyword .kwReturn)).bind fun _ => current_matches.bind fun _ =>
    (Matches.pure none).iteBind (hexpr.map some) fun _ =>
      (expect_matches (.symbol .semicolon)).bind fun _ => .pure _

include hexpr hstatements in
theorem statement?_matches :
    Matches depth (Grammar.statement? expr statements) (Grammar.statement? expr' statements') := by
  apply current_matches.bind
  intro t
  split
  · exact (assignment_matches hexpr).map some
  · exact (branch_matches hexpr hstatements).map some
  · exact (loop_matches hexpr hstatements).map some
  · exact (perform_matches hexpr).map some
  · exact (finish_matches hexpr).map some
  · exact .pure _

include hexpr hstatements in
theorem statementsWith_matches : Matches depth (Grammar.statementsWith expr statements)
    (Grammar.statementsWith expr' statements') :=
  (statement?_matches hexpr hstatements).many.bind fun _ => .pure _

end

theorem expr_term_match (fuel depth : Nat) :
    Matches depth (Grammar.expr fuel) (Grammar.expr (min fuel (maxDepth - depth))) ∧
      Matches depth (Grammar.term fuel) (Grammar.term (min fuel (maxDepth - depth))) := by
  induction fuel generalizing depth with
  | zero =>
    rw [Nat.zero_min]
    exact ⟨fail_matches _, fail_matches _⟩
  | succ fuel ih =>
    obtain ⟨hexpr, hterm⟩ := ih (depth + 1)
    constructor
    · exact .level (g := fun levels => Grammar.exprWith (Grammar.term levels)) fuel rfl
        (fun _ => rfl) (exprWith_matches hterm)
    · exact .level (g := fun levels => Grammar.termWith (Grammar.expr levels) (Grammar.term levels))
        fuel rfl (fun _ => rfl) (termWith_matches hexpr hterm)

theorem expr_matches (fuel depth : Nat) :
    Matches depth (Grammar.expr fuel) (Grammar.expr (min fuel (maxDepth - depth))) :=
  (expr_term_match fuel depth).1

theorem statements_matches (fuel depth : Nat) :
    Matches depth (Grammar.statements fuel)
      (Grammar.statements (min fuel (maxDepth - depth))) := by
  induction fuel generalizing depth with
  | zero =>
    rw [Nat.zero_min]
    exact fail_matches _
  | succ fuel ih =>
    have hbody := statementsWith_matches (expr_matches fuel (depth + 1)) (ih (depth + 1))
    exact .level (g := fun levels =>
      Grammar.statementsWith (Grammar.expr levels) (Grammar.statements levels)) fuel rfl
      (fun _ => rfl) hbody

theorem names_matches : Matches depth Grammar.names Grammar.names :=
  separated_matches (ident_matches.map some)

theorem classVar?_matches : Matches depth Grammar.classVar? Grammar.classVar? := by
  apply current_matches.bind
  intro t
  cases ClassVarKind.ofKind? t.kind with
  | none => exact .pure _
  | some kind =>
    exact take_matches.bind fun _ => varType_matches.bind fun _ => names_matches.bind fun _ =>
      (expect_matches (.symbol .semicolon)).bind fun _ => .pure _

theorem var?_matches : Matches depth Grammar.var? Grammar.var? := by
  apply (accept?_matches (.keyword .kwVar)).bind
  intro found
  cases found with
  | none => exact .pure _
  | some keyword =>
    exact varType_matches.bind fun _ => names_matches.bind fun _ =>
      (expect_matches (.symbol .semicolon)).bind fun _ => .pure _

theorem param?_matches : Matches depth Grammar.param? Grammar.param? :=
  current_matches.bind fun _ => Matches.ite
    (varType_matches.bind fun _ => ident_matches.bind fun _ => .pure _) (.pure none)

theorem params_matches : Matches depth Grammar.params Grammar.params :=
  separated?_matches param?_matches

section

variable (fuel : Nat)

theorem body_matches :
    Matches depth (Grammar.body fuel) (Grammar.body (min fuel (maxDepth - depth))) :=
  (expect_matches (.symbol .leftBrace)).bind fun _ => var?_matches.many.bind fun _ =>
    (statements_matches fuel depth).bind fun _ =>
      (expect_matches (.symbol .rightBrace)).bind fun _ => .pure _

theorem subroutine?_matches : Matches depth (Grammar.subroutine? fuel)
    (Grammar.subroutine? (min fuel (maxDepth - depth))) := by
  apply current_matches.bind
  intro t
  cases SubroutineKind.ofKind? t.kind with
  | none => exact .pure _
  | some kind =>
    exact take_matches.bind fun _ => returnType_matches.bind fun _ => ident_matches.bind fun _ =>
      (expect_matches (.symbol .leftParen)).bind fun _ => params_matches.bind fun _ =>
        (expect_matches (.symbol .rightParen)).bind fun _ =>
          (body_matches fuel).bind fun _ => .pure _

theorem classDecl_matches :
    Matches depth (Grammar.classDecl fuel) (Grammar.classDecl (min fuel (maxDepth - depth))) :=
  (expect_matches (.keyword .kwClass)).bind fun _ => ident_matches.bind fun _ =>
    (expect_matches (.symbol .leftBrace)).bind fun _ => classVar?_matches.many.bind fun _ =>
      (subroutine?_matches fuel).many.bind fun _ =>
        (expect_matches (.symbol .rightBrace)).bind fun _ => .pure _

theorem unit_matches :
    Matches depth (Grammar.unit fuel) (Grammar.unit (min fuel (maxDepth - depth))) :=
  (classDecl_matches fuel).bind fun _ => (expect_matches .endOfSource).bind fun _ => .pure _

end

end Parser

/-- The class that a reader with all levels left gives. -/
theorem parseTokens_eq (source : String) (tokens : List Token) :
    parseTokens source tokens =
      match Reader.unit maxDepth (.ofTokens source tokens) with
      | .ok (decl, _) => .ok decl
      | .error halt => .error halt.error := by
  have hunit := Parser.unit_matches (maxDepth + 1) (Stream.ofTokens source tokens) rfl
  rw [parseTokens, Stream.read, hunit]
  change ((Stream.ofTokens source tokens).settle
    (Reader.unit maxDepth (.ofTokens source tokens))).1 = _
  cases Reader.unit maxDepth (.ofTokens source tokens) <;> rfl

end Jack
