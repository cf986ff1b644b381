import Jack.Proofs.Tree.Reading

/-!
Trees and readers do not depend on where tokens stand. `move f` puts every span of a tree to another
place, and a reader that is run on tokens at other places, with the same kinds and texts, gives the
tree with its spans moved, or the error at the token moved.
-/

namespace Jack

/-! ### Trees at other places -/

section

variable (f : Span → Span)

def Token.move (t : Token) : Token := ⟨t.kind, f t.span⟩

@[simp] theorem Token.kind_move (t : Token) : (t.move f).kind = t.kind := rfl

def Ident.move (name : Ident) : Ident := ⟨name.name, f name.span⟩

/-- Moves an item behind its comma. -/
def moveBehind {α : Type} (item : α → α) (x : Span × α) : Span × α := (f x.1, item x.2)

def Separated.move {α : Type} (item : α → α) (xs : Separated α) : Separated α :=
  ⟨item xs.head, xs.tail.map (moveBehind f item)⟩

def VarType.move : VarType → VarType
  | primitive type span => primitive type (f span)
  | object name => object (name.move f)

def ReturnType.move : ReturnType → ReturnType
  | void span => void (f span)
  | value type => value (type.move f)

mutual

def Expr.move : Expr → Expr
  | .mk head tail => .mk head.move tail.move

def OpTerms.move : OpTerms → OpTerms
  | .nil => .nil
  | .cons op opSpan term rest => .cons op (f opSpan) term.move rest.move

def Term.move : Term → Term
  | .integer value span => .integer value (f span)
  | .string value span => .string value (f span)
  | .named value span => .named value (f span)
  | .paren left expr right => .paren (f left) expr.move (f right)
  | .unary op opSpan term => .unary op (f opSpan) term.move
  | .var name => .var (name.move f)
  | .element name index => .element (name.move f) index.move
  | .call call => .call call.move

def Index.move : Index → Index
  | .mk left expr right => .mk (f left) expr.move (f right)

def Call.move : Call → Call
  | .mk receiver name left args right =>
    .mk (receiver.map fun x => (x.1.move f, f x.2)) (name.move f) (f left) args.move (f right)

def Args.move : Args → Args
  | .none => .none
  | .some head tail => .some head.move tail.move

def MoreArgs.move : MoreArgs → MoreArgs
  | .nil => .nil
  | .cons comma arg rest => .cons (f comma) arg.move rest.move

end

mutual

def Stmt.move : Stmt → Stmt
  | .assign keyword target index equal value semicolon =>
    .assign (f keyword) (target.move f) (index.map (Index.move f)) (f equal) (value.move f)
      (f semicolon)
  | .branch keyword left condition right yes no =>
    .branch (f keyword) (f left) (condition.move f) (f right) yes.move no.move
  | .loop keyword left condition right body =>
    .loop (f keyword) (f left) (condition.move f) (f right) body.move
  | .perform keyword call semicolon => .perform (f keyword) (call.move f) (f semicolon)
  | .finish keyword value semicolon =>
    .finish (f keyword) (value.map (Expr.move f)) (f semicolon)

def Otherwise.move : Otherwise → Otherwise
  | .none => .none
  | .some keyword block => .some (f keyword) block.move

def Block.move : Block → Block
  | .mk left body right => .mk (f left) body.move (f right)

def Stmts.move : Stmts → Stmts
  | .nil => .nil
  | .cons stmt rest => .cons stmt.move rest.move

end

def ClassVarDec.move (dec : ClassVarDec) : ClassVarDec :=
  ⟨dec.kind, f dec.keyword, dec.type.move f, dec.names.move f (Ident.move f), f dec.semicolon⟩

def VarDec.move (dec : VarDec) : VarDec :=
  ⟨f dec.keyword, dec.type.move f, dec.names.move f (Ident.move f), f dec.semicolon⟩

def Param.move (param : Param) : Param := ⟨param.type.move f, param.name.move f⟩

def Body.move (body : Body) : Body :=
  ⟨f body.left, body.vars.map (VarDec.move f), body.statements.move f, f body.right⟩

def Subroutine.move (sub : Subroutine) : Subroutine :=
  ⟨sub.kind, f sub.keyword, sub.returns.move f, sub.name.move f, f sub.left,
    sub.params.map (Separated.move f (Param.move f)), f sub.right, sub.body.move f⟩

def ClassDecl.move (decl : ClassDecl) : ClassDecl :=
  ⟨f decl.keyword, decl.name.move f, f decl.left, decl.vars.map (ClassVarDec.move f),
    decl.subroutines.map (Subroutine.move f), f decl.right⟩

/-- The same error at another place. -/
def SyntaxError.move : SyntaxError → SyntaxError
  | mismatch t expected => mismatch (t.move f) expected
  | unexpected t hint => unexpected (t.move f) hint
  | nesting t => nesting (t.move f)
  | integer t => integer (t.move f)
  | unreadable t => unreadable (t.move f)

end

@[simp] theorem Token.span_move (f : Span → Span) (t : Token) : (t.move f).span = f t.span := rfl

@[simp] theorem OpTerms.move_ofList (f : Span → Span) (xs : List (BinaryOp × Span × Term)) :
    (OpTerms.ofList xs).move f =
      .ofList (xs.map fun x => (x.1, f x.2.1, x.2.2.move f)) := by
  induction xs with
  | nil => rfl
  | cons x xs ih => exact congrArg (OpTerms.cons x.1 (f x.2.1) (x.2.2.move f)) ih

@[simp] theorem MoreArgs.move_ofList (f : Span → Span) (xs : List (Span × Expr)) :
    (MoreArgs.ofList xs).move f = .ofList (xs.map (moveBehind f (Expr.move f))) := by
  induction xs with
  | nil => rfl
  | cons x xs ih => exact congrArg (MoreArgs.cons (f x.1) (x.2.move f)) ih

@[simp] theorem Args.move_ofSeparated (f : Span → Span) (xs : Option (Separated Expr)) :
    (Args.ofSeparated xs).move f = .ofSeparated (xs.map (Separated.move f (Expr.move f))) := by
  cases xs <;> simp [Args.ofSeparated, Args.move, Separated.move]

@[simp] theorem Stmts.move_ofList (f : Span → Span) (xs : List Stmt) :
    (Stmts.ofList xs).move f = .ofList (xs.map (Stmt.move f)) := by
  induction xs with
  | nil => rfl
  | cons x xs ih => exact congrArg (Stmts.cons (x.move f)) ih

/-! ### Cursors at other places -/

namespace Cursor

variable (f : Span → Span) (target : String)

/-- The cursor over the same tokens at their places in the target. -/
def move (c : Cursor) : Cursor := ⟨target, c.ahead.map (Token.move f), c.last.move f⟩

/-- The tokens from the current one on have the same texts in the target. -/
def SameTexts (c : Cursor) : Prop :=
  ∀ t ∈ c.ahead ++ [c.last], (t.move f).text? target = t.text? c.source

@[simp] theorem source_move (c : Cursor) : (c.move f target).source = target := rfl

@[simp] theorem peek_move (c : Cursor) (n : Nat) :
    (c.move f target).peek n = (c.peek n).move f := by
  simp [move, peek, List.getD_eq_getElem?_getD, Option.getD_map]

@[simp] theorem current_move (c : Cursor) : (c.move f target).current = c.current.move f :=
  peek_move f target c 0

@[simp] theorem advance_move (c : Cursor) :
    (c.move f target).advance = c.advance.move f target := by
  obtain ⟨source, ahead, last⟩ := c
  cases ahead with
  | nil => rfl
  | cons t ts => by_cases h : t.kind = .endOfSource <;> simp [move, advance, h]

variable {f target}

theorem current_mem (c : Cursor) : c.current ∈ c.ahead ++ [c.last] := by
  obtain ⟨source, ahead, last⟩ := c
  cases ahead <;> simp [current, peek]

theorem SameTexts.advance {c : Cursor} (hc : c.SameTexts f target) :
    c.advance.SameTexts f target := by
  obtain ⟨source, ahead, last⟩ := c
  cases ahead with
  | nil => exact hc
  | cons t ts =>
    by_cases h : t.kind = .endOfSource
    · simpa [Cursor.advance, h] using hc
    · simp only [Cursor.advance, h, if_false]
      exact fun u hu => hc u (List.mem_cons_of_mem t hu)

end Cursor

/-! ### Readers on tokens at other places -/

namespace Reader

section

variable (f : Span → Span) (target : String)

def moveHalt (halt : Halt) : Halt :=
  ⟨halt.error.move f, halt.cursor.move f target, halt.opened⟩

variable {α β : Type}

/-- The result of a reader on the tokens at other places. -/
def moveResult (m : α → β) : Except Halt (α × Cursor) → Except Halt (β × Cursor)
  | .ok (a, c) => .ok (m a, c.move f target)
  | .error halt => .error (moveHalt f target halt)

/-- On the tokens at other places the second reader does what the first one does on those ahead. -/
structure Relocates (m : α → β) (r : Reader α) (r' : Reader β) (c : Cursor) : Prop where
  run : c.SameTexts f target → r' (c.move f target) = moveResult f target m (r c)
  keeps : c.SameTexts f target → Gives r c fun _ c₁ => c₁.SameTexts f target

end

variable {f : Span → Span} {target : String} {α β γ δ : Type} {m : α → β} {m₂ : γ → δ}
  {c : Cursor}

namespace Relocates

theorem pure {a : α} {b : β} (h : m a = b) :
    Relocates f target m (pure a) (pure b) c where
  run _ := by simp [moveResult, h]
  keeps hc := .pure hc

/-- The second part may rest on what the first one gives. -/
theorem bindGives {x : Reader α} {x' : Reader β} {g : α → Reader γ} {g' : β → Reader δ}
    {P : α → Cursor → Prop} (hx : Relocates f target m x x' c)
    (hP : c.SameTexts f target → Gives x c P)
    (hg : ∀ a c₁, P a c₁ → Relocates f target m₂ (g a) (g' (m a)) c₁) :
    Relocates f target m₂ (x >>= g) (x' >>= g') c where
  run hc := by
    rw [bind_apply, bind_apply, hx.run hc]
    cases h : x c with
    | error halt => rfl
    | ok result =>
      obtain ⟨a, c₁⟩ := result
      exact (hg a c₁ (hP hc a c₁ h)).run (hx.keeps hc a c₁ h)
  keeps hc := by
    refine Gives.bind (fun a c₁ h => And.intro (hP hc a c₁ h) (hx.keeps hc a c₁ h)) ?_
    exact fun a c₁ h => (hg a c₁ h.1).keeps h.2

theorem bind {x : Reader α} {x' : Reader β} {g : α → Reader γ} {g' : β → Reader δ}
    (hx : Relocates f target m x x' c)
    (hg : ∀ a c₁, Relocates f target m₂ (g a) (g' (m a)) c₁) :
    Relocates f target m₂ (x >>= g) (x' >>= g') c :=
  hx.bindGives (fun _ _ _ _ => trivial) fun a c₁ _ => hg a c₁

theorem map {x : Reader α} {x' : Reader β} {g : α → γ} {g' : β → δ}
    (hx : Relocates f target m x x' c) (hg : ∀ a, m₂ (g a) = g' (m a)) :
    Relocates f target m₂ (g <$> x) (g' <$> x') c := by
  rw [map_eq_pure_bind, map_eq_pure_bind]
  exact hx.bind fun a c₁ => .pure (hg a)

theorem bindIte {p : Prop} [Decidable p] {x y : Reader α} {x' y' : Reader β} {g : α → Reader γ}
    {g' : β → Reader δ} (hx : Relocates f target m x x' c) (hy : Relocates f target m y y' c)
    (hg : ∀ a c₁, Relocates f target m₂ (g a) (g' (m a)) c₁) :
    Relocates f target m₂ (if p then x >>= g else y >>= g) (if p then x' >>= g' else y' >>= g')
      c := by
  split
  · exact hx.bind hg
  · exact hy.bind hg

theorem fail {error error' : Token → SyntaxError}
    (h : ∀ t, error' (t.move f) = (error t).move f) :
    Relocates f target m (Reader.fail error) (Reader.fail error') c where
  run _ := by simp [Reader.fail, moveResult, moveHalt, h]
  keeps _ := .fail

theorem unexpected {hint : String} :
    Relocates f target m (Reader.unexpected hint) (Reader.unexpected hint) c := by
  rw [unexpected_eq, unexpected_eq]
  exact .fail fun _ => rfl

theorem tooDeep : Relocates f target m Reader.tooDeep Reader.tooDeep c :=
  .fail fun _ => rfl

theorem nested {r : Reader α} {r' : Reader β} (h : Relocates f target m r r' c) :
    Relocates f target m (Reader.nested r) (Reader.nested r') c where
  run hc := by
    rw [Reader.nested, Reader.nested, h.run hc]
    cases r c <;> rfl
  keeps hc a c₁ hr := by
    refine h.keeps hc a c₁ ?_
    cases hinner : r c with
    | ok result => simpa [Reader.nested, hinner] using hr
    | error halt => simp [Reader.nested, hinner] at hr

theorem bindCurrent {g : Token → Reader α} {g' : Token → Reader β}
    (h : Relocates f target m (g c.current) (g' (c.current.move f)) c) :
    Relocates f target m (current >>= g) (current >>= g') c where
  run hc := by
    have hcurrent : (current >>= g') (c.move f target) =
        g' (c.move f target).current (c.move f target) := rfl
    rw [hcurrent, Cursor.current_move]
    exact h.run hc
  keeps hc := .bindCurrent (h.keeps hc)

theorem bindGet {g : Cursor → Reader α} {g' : Cursor → Reader β}
    (h : Relocates f target m (g c) (g' (c.move f target)) c) :
    Relocates f target m (get >>= g) (get >>= g') c where
  run hc := h.run hc
  keeps hc := .bindGet (h.keeps hc)

end Relocates

theorem take_relocates (c : Cursor) : Relocates f target f take take c where
  run _ := by simp [take, moveResult]
  keeps hc := by
    intro span c₁ h
    simp only [take, Except.ok.injEq, Prod.mk.injEq] at h
    exact h.2 ▸ hc.advance

theorem accept?_relocates (kind : Kind) (c : Cursor) :
    Relocates f target (Option.map f) (accept? kind) (accept? kind) c where
  run _ := by
    by_cases h : c.current.kind = kind <;> simp [accept?, Cursor.accept?, h, moveResult]
  keeps hc := by
    refine Gives.accept?.mono fun found c₁ h => ?_
    cases found with
    | none => exact h.2 ▸ hc
    | some span => exact h.2 ▸ hc.advance

theorem expect_relocates (kind : Kind) (c : Cursor) :
    Relocates f target f (expect kind) (expect kind) c where
  run _ := by
    by_cases h : c.current.kind = kind <;>
      simp [expect, Cursor.accept?, h, moveResult, moveHalt, SyntaxError.move]
  keeps hc := Gives.expect.mono fun span c₁ h => h.2 ▸ hc.advance

theorem textOf_relocates {t : Token} (h : (t.move f).text? target = t.text? c.source) :
    Relocates f target id (textOf t) (textOf (t.move f)) c where
  run _ := by
    simp only [textOf, Cursor.source_move, h]
    cases t.text? c.source <;> rfl
  keeps hc := Gives.textOf.mono fun text c₁ h => h.2 ▸ hc

/-- A token that is taken for its text, which is the same at the other place. -/
theorem Relocates.expectText {kind : Kind} {g : Span → String → Reader α}
    {g' : Span → String → Reader β}
    (hg : ∀ span text c₁, Relocates f target m (g span text) (g' (f span) text) c₁) :
    Relocates f target m (expect kind >>= fun span => textOf ⟨kind, span⟩ >>= g span)
      (expect kind >>= fun span => textOf ⟨kind, span⟩ >>= g' span) c := by
  have htext : c.SameTexts f target → Gives (expect kind) c fun span c₁ =>
      ((⟨kind, span⟩ : Token).move f).text? target = (⟨kind, span⟩ : Token).text? c₁.source := by
    intro hc
    refine Gives.expect.mono fun span c₁ h => ?_
    rw [h.2, Cursor.source_advance, ← h.1]
    exact hc c.current c.current_mem
  exact (expect_relocates kind c).bindGives htext fun span c₁ h =>
    (textOf_relocates h).bind fun text c₂ => hg span text c₂

/-! ### Repetition -/

/-- A round of `many` reads an item, and ends the loop when there is none. -/
theorem manyFrom_cons (item : Reader (Option α)) (seen : List α) (round : Token)
    (rounds : List Token) :
    manyFrom item seen (round :: rounds) =
      item >>= fun found => (found.elim (pure seen.reverse)
        fun a => manyFrom item (a :: seen) rounds : Reader (List α)) := by
  funext c
  rw [bind_apply, manyFrom]
  cases item c with
  | error halt => rfl
  | ok result =>
    obtain ⟨found, c₁⟩ := result
    cases found <;> rfl

theorem manyFrom_relocates {item : Reader (Option α)} {item' : Reader (Option β)}
    (hitem : ∀ c, Relocates f target (Option.map m) item item' c) (rounds : List Token)
    (seen : List α) (c : Cursor) : Relocates f target (List.map m)
      (manyFrom item seen rounds) (manyFrom item' (seen.map m) (rounds.map (Token.move f))) c := by
  -- Both loops have the same number of rounds; which tokens stand for them does not matter.
  induction rounds generalizing seen c with
  | nil => exact Relocates.pure List.map_reverse
  | cons round rounds ih =>
    rw [List.map_cons, manyFrom_cons, manyFrom_cons]
    apply (hitem c).bind
    intro found c₁
    cases found with
    | none => exact .pure List.map_reverse
    | some a => exact ih (a :: seen) c₁

theorem many_relocates {item : Reader (Option α)} {item' : Reader (Option β)}
    (hitem : ∀ c, Relocates f target (Option.map m) item item' c) (c : Cursor) :
    Relocates f target (List.map m) (many item) (many item') c where
  run hc := (manyFrom_relocates hitem c.ahead [] c).run hc
  keeps hc := (manyFrom_relocates hitem c.ahead [] c).keeps hc

section

variable {k : α → α} {item : Reader (Option α)}
  (hitem : ∀ c, Relocates f target (Option.map k) item item c)

include hitem

theorem nextItem_relocates (c : Cursor) :
    Relocates f target (Option.map (moveBehind f k)) (nextItem item) (nextItem item) c := by
  apply (accept?_relocates (.symbol .comma) c).bind
  intro comma c₁
  cases comma with
  | none => exact .pure rfl
  | some comma =>
    apply (hitem c₁).bind
    intro found c₂
    cases found with
    | none => exact .unexpected
    | some a => exact .pure rfl

theorem separated?_relocates (c : Cursor) :
    Relocates f target (Option.map (Separated.move f k)) (separated? item) (separated? item) c := by
  apply (hitem c).bind
  intro found c₁
  cases found with
  | none => exact .pure rfl
  | some head =>
    exact (many_relocates (nextItem_relocates hitem) c₁).bind fun tail c₂ => .pure rfl

theorem separated_relocates (c : Cursor) :
    Relocates f target (Separated.move f k) (separated item) (separated item) c := by
  apply (separated?_relocates hitem c).bind
  intro found c₁
  cases found with
  | none => exact .unexpected
  | some items => exact .pure rfl

end

/-! ### Names, constants and types -/

theorem ident_relocates (c : Cursor) : Relocates f target (Ident.move f) ident ident c :=
  .expectText fun _ _ _ => .pure rfl

theorem integer_relocates (c : Cursor) :
    Relocates f target (fun x => (x.1, f x.2)) integer integer c := by
  apply Relocates.expectText
  intro span text c₁
  cases wordValue? text with
  | none => exact .fail fun t => rfl
  | some value => exact .pure rfl

theorem string_relocates (c : Cursor) :
    Relocates f target (fun x => (x.1, f x.2)) string string c :=
  .expectText fun _ _ _ => .pure rfl

theorem varType_relocates (c : Cursor) :
    Relocates f target (VarType.move f) varType varType c := by
  apply Relocates.bindCurrent
  rw [Token.kind_move]
  split
  · exact (ident_relocates c).bind fun name c₁ => .pure rfl
  · rename_i word _
    cases Primitive.ofKeyword? word with
    | none => exact .unexpected
    | some type => exact (take_relocates c).bind fun span c₁ => .pure rfl
  · exact .unexpected

theorem returnType_relocates (c : Cursor) :
    Relocates f target (ReturnType.move f) returnType returnType c := by
  apply (accept?_relocates (.keyword .kwVoid) c).bind
  intro found c₁
  cases found with
  | some span => exact .pure rfl
  | none => exact (varType_relocates c₁).bind fun type c₂ => .pure rfl

/-! ### Expressions -/

section

variable {expr : Reader Expr} {term : Reader Term}
  (hexpr : ∀ c, Relocates f target (Expr.move f) expr expr c)
  (hterm : ∀ c, Relocates f target (Term.move f) term term c)

include hterm in
theorem opTerm?_relocates (c : Cursor) :
    Relocates f target (Option.map fun x => (x.1, f x.2.1, x.2.2.move f)) (opTerm? term)
      (opTerm? term) c := by
  apply Relocates.bindCurrent
  rw [Token.kind_move]
  cases BinaryOp.ofKind? c.current.kind with
  | none => exact .pure rfl
  | some op =>
    apply (take_relocates c).bind
    intro span c₁
    exact (hterm c₁).bind fun t c₂ => .pure rfl

include hterm in
theorem exprWith_relocates (c : Cursor) :
    Relocates f target (Expr.move f) (exprWith term) (exprWith term) c := by
  apply (hterm c).bind
  intro head c₁
  apply (many_relocates (opTerm?_relocates hterm) c₁).bind
  intro tail c₂
  exact .pure (by simp [Expr.move])

include hexpr in
theorem argument?_relocates (c : Cursor) :
    Relocates f target (Option.map (Expr.move f)) (argument? expr) (argument? expr) c := by
  apply Relocates.bindCurrent
  rw [Token.kind_move]
  split
  · exact .pure rfl
  · exact (hexpr c).bind fun e c₁ => .pure rfl

include hexpr in
theorem argsWith_relocates (c : Cursor) :
    Relocates f target (Args.move f) (argsWith expr) (argsWith expr) c :=
  (separated?_relocates (argument?_relocates hexpr) c).bind fun items c₁ => .pure (by simp)

theorem receiver?_relocates (c : Cursor) :
    Relocates f target (Option.map fun x => (x.1.move f, f x.2)) receiver? receiver? c := by
  apply Relocates.bindGet
  rw [Cursor.peek_move, Token.kind_move]
  split
  · apply (ident_relocates c).bind
    intro name c₁
    exact (expect_relocates (.symbol .dot) c₁).bind fun dot c₂ => .pure rfl
  · exact .pure rfl

include hexpr in
theorem callWith_relocates (c : Cursor) :
    Relocates f target (Call.move f) (callWith expr) (callWith expr) c := by
  apply (receiver?_relocates c).bind
  intro receiver c₁
  apply (ident_relocates c₁).bind
  intro name c₂
  apply (expect_relocates (.symbol .leftParen) c₂).bind
  intro left c₃
  apply (argsWith_relocates hexpr c₃).bind
  intro args c₄
  exact (expect_relocates (.symbol .rightParen) c₄).bind fun right c₅ => .pure rfl

include hexpr in
theorem indexWith_relocates (c : Cursor) :
    Relocates f target (Index.move f) (indexWith expr) (indexWith expr) c := by
  apply (expect_relocates (.symbol .leftBracket) c).bind
  intro left c₁
  apply (hexpr c₁).bind
  intro e c₂
  exact (expect_relocates (.symbol .rightBracket) c₂).bind fun right c₃ => .pure rfl

include hexpr in
theorem nameTerm_relocates (c : Cursor) :
    Relocates f target (Term.move f) (nameTerm expr) (nameTerm expr) c := by
  apply Relocates.bindGet
  rw [Cursor.peek_move, Token.kind_move]
  split
  · exact (callWith_relocates hexpr c).bind fun call c₁ => .pure rfl
  · exact (callWith_relocates hexpr c).bind fun call c₁ => .pure rfl
  · apply (ident_relocates c).bind
    intro name c₁
    exact (indexWith_relocates hexpr c₁).bind fun index c₂ => .pure rfl
  · exact (ident_relocates c).bind fun name c₁ => .pure rfl

include hexpr in
theorem parenTerm_relocates (c : Cursor) :
    Relocates f target (Term.move f) (parenTerm expr) (parenTerm expr) c := by
  apply (take_relocates c).bind
  intro left c₁
  apply (hexpr c₁).bind
  intro e c₂
  exact (expect_relocates (.symbol .rightParen) c₂).bind fun right c₃ => .pure rfl

include hterm in
theorem unaryTerm_relocates (op : UnaryOp) (c : Cursor) :
    Relocates f target (Term.move f) (unaryTerm term op) (unaryTerm term op) c := by
  apply (take_relocates c).bind
  intro span c₁
  exact (hterm c₁).bind fun t c₂ => .pure rfl

theorem constantTerm_relocates (k : Keyword) (c : Cursor) :
    Relocates f target (Term.move f) (constantTerm k) (constantTerm k) c := by
  unfold constantTerm Grammar.constantTerm
  cases NamedConstant.ofKind? (.keyword k) with
  | none => exact .unexpected
  | some value => exact (take_relocates c).bind fun span c₁ => .pure rfl

include hexpr hterm in
theorem termWith_relocates (c : Cursor) :
    Relocates f target (Term.move f) (termWith expr term) (termWith expr term) c := by
  apply Relocates.bindCurrent
  rw [Token.kind_move]
  split
  · exact (integer_relocates c).bind fun value c₁ => .pure rfl
  · exact (string_relocates c).bind fun value c₁ => .pure rfl
  · exact constantTerm_relocates _ c
  · exact parenTerm_relocates hexpr c
  · exact unaryTerm_relocates hterm .neg c
  · exact unaryTerm_relocates hterm .not c
  · exact nameTerm_relocates hexpr c
  · exact .unexpected

end

mutual

theorem expr_relocates (levels : Nat) (c : Cursor) :
    Relocates f target (Expr.move f) (expr levels) (expr levels) c := by
  cases levels with
  | zero => exact .tooDeep
  | succ levels => exact .nested (exprWith_relocates (term_relocates levels) c)

theorem term_relocates (levels : Nat) (c : Cursor) :
    Relocates f target (Term.move f) (term levels) (term levels) c := by
  cases levels with
  | zero => exact .tooDeep
  | succ levels =>
    exact .nested (termWith_relocates (expr_relocates levels) (term_relocates levels) c)

end

/-! ### Statements -/

section

variable {expr : Reader Expr} {statements : Reader Stmts}
  (hexpr : ∀ c, Relocates f target (Expr.move f) expr expr c)
  (hstatements : ∀ c, Relocates f target (Stmts.move f) statements statements c)

include hexpr in
theorem assignment_relocates (c : Cursor) :
    Relocates f target (Stmt.move f) (assignment expr) (assignment expr) c := by
  apply (expect_relocates (.keyword .kwLet) c).bind
  intro keyword c₁
  apply (ident_relocates c₁).bind
  intro name c₂
  apply Relocates.bindCurrent
  rw [Token.kind_move]
  have hindex : Relocates f target (Option.map (Index.move f)) (some <$> indexWith expr)
      (some <$> indexWith expr) c₂ := (indexWith_relocates hexpr c₂).map fun _ => rfl
  apply hindex.bindIte (.pure rfl)
  intro index c₃
  apply (expect_relocates (.symbol .equal) c₃).bind
  intro equal c₄
  apply (hexpr c₄).bind
  intro value c₅
  exact (expect_relocates (.symbol .semicolon) c₅).bind fun semicolon c₆ => .pure rfl

include hstatements in
theorem blockWith_relocates (c : Cursor) :
    Relocates f target (Block.move f) (blockWith statements) (blockWith statements) c := by
  apply (expect_relocates (.symbol .leftBrace) c).bind
  intro left c₁
  apply (hstatements c₁).bind
  intro body c₂
  exact (expect_relocates (.symbol .rightBrace) c₂).bind fun right c₃ => .pure rfl

include hstatements in
theorem otherwise_relocates (c : Cursor) :
    Relocates f target (Otherwise.move f) (otherwise statements) (otherwise statements) c := by
  apply (accept?_relocates (.keyword .kwElse) c).bind
  intro found c₁
  cases found with
  | none => exact .pure rfl
  | some keyword => exact (blockWith_relocates hstatements c₁).bind fun block c₂ => .pure rfl

include hexpr hstatements in
theorem branch_relocates (c : Cursor) :
    Relocates f target (Stmt.move f) (branch expr statements) (branch expr statements) c := by
  apply (expect_relocates (.keyword .kwIf) c).bind
  intro keyword c₁
  apply (expect_relocates (.symbol .leftParen) c₁).bind
  intro left c₂
  apply (hexpr c₂).bind
  intro condition c₃
  apply (expect_relocates (.symbol .rightParen) c₃).bind
  intro right c₄
  apply (blockWith_relocates hstatements c₄).bind
  intro yes c₅
  exact (otherwise_relocates hstatements c₅).bind fun no c₆ => .pure rfl

include hexpr hstatements in
theorem loop_relocates (c : Cursor) :
    Relocates f target (Stmt.move f) (loop expr statements) (loop expr statements) c := by
  apply (expect_relocates (.keyword .kwWhile) c).bind
  intro keyword c₁
  apply (expect_relocates (.symbol .leftParen) c₁).bind
  intro left c₂
  apply (hexpr c₂).bind
  intro condition c₃
  apply (expect_relocates (.symbol .rightParen) c₃).bind
  intro right c₄
  exact (blockWith_relocates hstatements c₄).bind fun body c₅ => .pure rfl

include hexpr in
theorem perform_relocates (c : Cursor) :
    Relocates f target (Stmt.move f) (perform expr) (perform expr) c := by
  apply (expect_relocates (.keyword .kwDo) c).bind
  intro keyword c₁
  apply (callWith_relocates hexpr c₁).bind
  intro call c₂
  exact (expect_relocates (.symbol .semicolon) c₂).bind fun semicolon c₃ => .pure rfl

include hexpr in
theorem finish_relocates (c : Cursor) :
    Relocates f target (Stmt.move f) (finish expr) (finish expr) c := by
  apply (expect_relocates (.keyword .kwReturn) c).bind
  intro keyword c₁
  apply Relocates.bindCurrent
  rw [Token.kind_move]
  have hvalue : Relocates f target (Option.map (Expr.move f)) (some <$> expr) (some <$> expr) c₁ :=
    (hexpr c₁).map fun _ => rfl
  apply Relocates.bindIte (.pure rfl) hvalue
  intro value c₂
  exact (expect_relocates (.symbol .semicolon) c₂).bind fun semicolon c₃ => .pure rfl

include hexpr hstatements in
theorem statement?_relocates (c : Cursor) :
    Relocates f target (Option.map (Stmt.move f)) (statement? expr statements)
      (statement? expr statements) c := by
  apply Relocates.bindCurrent
  rw [Token.kind_move]
  split
  · exact (assignment_relocates hexpr c).map fun stmt => rfl
  · exact (branch_relocates hexpr hstatements c).map fun stmt => rfl
  · exact (loop_relocates hexpr hstatements c).map fun stmt => rfl
  · exact (perform_relocates hexpr c).map fun stmt => rfl
  · exact (finish_relocates hexpr c).map fun stmt => rfl
  · exact .pure rfl

include hexpr hstatements in
theorem statementsWith_relocates (c : Cursor) :
    Relocates f target (Stmts.move f) (statementsWith expr statements)
      (statementsWith expr statements) c :=
  (many_relocates (statement?_relocates hexpr hstatements) c).bind fun stmts c₁ => .pure (by simp)

end

theorem statements_relocates (levels : Nat) (c : Cursor) :
    Relocates f target (Stmts.move f) (statements levels) (statements levels) c := by
  induction levels generalizing c with
  | zero => exact .tooDeep
  | succ levels ih => exact .nested (statementsWith_relocates (expr_relocates levels) ih c)

/-! ### Declarations -/

theorem names_relocates (c : Cursor) :
    Relocates f target (Separated.move f (Ident.move f)) names names c :=
  separated_relocates (fun c => (ident_relocates c).map fun _ => rfl) c

theorem classVar?_relocates (c : Cursor) :
    Relocates f target (Option.map (ClassVarDec.move f)) classVar? classVar? c := by
  apply Relocates.bindCurrent
  rw [Token.kind_move]
  cases ClassVarKind.ofKind? c.current.kind with
  | none => exact .pure rfl
  | some kind =>
    apply (take_relocates c).bind
    intro keyword c₁
    apply (varType_relocates c₁).bind
    intro type c₂
    apply (names_relocates c₂).bind
    intro names c₃
    exact (expect_relocates (.symbol .semicolon) c₃).bind fun semicolon c₄ => .pure rfl

theorem var?_relocates (c : Cursor) :
    Relocates f target (Option.map (VarDec.move f)) var? var? c := by
  apply (accept?_relocates (.keyword .kwVar) c).bind
  intro found c₁
  cases found with
  | none => exact .pure rfl
  | some keyword =>
    apply (varType_relocates c₁).bind
    intro type c₂
    apply (names_relocates c₂).bind
    intro names c₃
    exact (expect_relocates (.symbol .semicolon) c₃).bind fun semicolon c₄ => .pure rfl

theorem param?_relocates (c : Cursor) :
    Relocates f target (Option.map (Param.move f)) param? param? c := by
  apply Relocates.bindCurrent
  rw [Token.kind_move]
  split
  · apply (varType_relocates c).bind
    intro type c₁
    exact (ident_relocates c₁).bind fun name c₂ => .pure rfl
  · exact .pure rfl

theorem body_relocates (levels : Nat) (c : Cursor) :
    Relocates f target (Body.move f) (body levels) (body levels) c := by
  apply (expect_relocates (.symbol .leftBrace) c).bind
  intro left c₁
  apply (many_relocates var?_relocates c₁).bind
  intro vars c₂
  apply Relocates.bind (statements_relocates levels c₂)
  intro stmts c₃
  exact (expect_relocates (.symbol .rightBrace) c₃).bind fun right c₄ => .pure rfl

theorem subroutine?_relocates (levels : Nat) (c : Cursor) :
    Relocates f target (Option.map (Subroutine.move f)) (subroutine? levels)
      (subroutine? levels) c := by
  apply Relocates.bindCurrent
  rw [Token.kind_move]
  cases SubroutineKind.ofKind? c.current.kind with
  | none => exact .pure rfl
  | some kind =>
    apply (take_relocates c).bind
    intro keyword c₁
    apply (returnType_relocates c₁).bind
    intro returns c₂
    apply (ident_relocates c₂).bind
    intro name c₃
    apply (expect_relocates (.symbol .leftParen) c₃).bind
    intro left c₄
    apply (separated?_relocates param?_relocates c₄).bind
    intro params c₅
    apply (expect_relocates (.symbol .rightParen) c₅).bind
    intro right c₆
    exact (body_relocates levels c₆).bind fun body c₇ => .pure rfl

theorem classDecl_relocates (levels : Nat) (c : Cursor) :
    Relocates f target (ClassDecl.move f) (classDecl levels) (classDecl levels) c := by
  apply (expect_relocates (.keyword .kwClass) c).bind
  intro keyword c₁
  apply (ident_relocates c₁).bind
  intro name c₂
  apply (expect_relocates (.symbol .leftBrace) c₂).bind
  intro left c₃
  apply (many_relocates classVar?_relocates c₃).bind
  intro vars c₄
  apply (many_relocates (subroutine?_relocates levels) c₄).bind
  intro subroutines c₅
  exact (expect_relocates (.symbol .rightBrace) c₅).bind fun right c₆ => .pure rfl

theorem unit_relocates (levels : Nat) (c : Cursor) :
    Relocates f target (ClassDecl.move f) (unit levels) (unit levels) c := by
  apply (classDecl_relocates levels c).bind
  intro decl c₁
  exact (expect_relocates .endOfSource c₁).bind fun span c₂ => .pure rfl

end Reader

end Jack
