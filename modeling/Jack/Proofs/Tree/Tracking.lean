import Jack.Proofs.Tree.Completeness
import Jack.Proofs.Tree.Lockstep
import Jack.Proofs.Tree.Soundness

/-!
The readers of the grammar side by side: each follows itself over the words of its trees, with any
number of levels and with as many or more. What decides between the productions is the kind of the
current token. The one exception, a look behind a name, comes to the same as a look at the current
token once the name is read.
-/

namespace Jack

deriving instance Nonempty for Span, Ident, VarType, ReturnType, Param

deriving instance Nonempty for Term, OpTerms, Args, Otherwise, Stmts

deriving instance Nonempty for Expr, Index, Call, Block, Body, Stmt

namespace Reader

variable {α β : Type} {p q n m : Nat} {c : Cursor}

/-- The readers follow each other over the words of the trees. -/
def Tracks (p q : Nat) (f : β → List Terminal) (r r' : Reader α) : Prop :=
  ∀ c : Cursor, c.Readable → Follows p q (words f) (fun _ => True) r r' c

/-! ### Names, constants and types -/

theorem bind_of_error {x : Reader α} {f : α → Reader β} {halt : Halt} (h : x c = .error halt) :
    (x >>= f) c = .error halt := by
  rw [bind_apply, h]

/-- A reader for one token that goes on to its text. -/
theorem needs_of_expect {kind : Kind} {f : Span → Reader α} (hend : kind ≠ .endOfSource)
    (hok : ∀ (c : Cursor) (x : Terminal), x.token.kind = kind → x.ReadAs c.source →
      ∃ a, (expect kind >>= f) (c.before [x]) = .ok (a, c)) : Needs kind (expect kind >>= f) := by
  intro c hc
  split
  · rename_i hkind
    obtain ⟨x, hx, hread⟩ := hc.current (hkind ▸ hend)
    have htook := Took.of_current hc.closed hx hread
    have hread' := htook.readAs x (by simp)
    obtain ⟨a, ha⟩ := hok c.advance x (hx ▸ hkind) hread'
    rw [← htook.eq_before] at ha
    exact ⟨a, ha⟩
  · rename_i hkind
    have hexpect := expect_needs kind c hc
    rw [if_neg hkind] at hexpect
    exact bind_of_error hexpect

theorem ident_tracks : Tracks p q Ident.terminals ident ident := by
  have hneeds : Needs .identifier ident := needs_of_expect (by simp) fun c x hx hread => by
    cases x with
    | identifier name span =>
      have hname : (Ident.mk name span).terminal.ReadAs c.source := hread
      exact ⟨⟨name, span⟩, ident_before hname []⟩
    | _ => simp [Terminal.token] at hx
  exact fun c hc => hneeds.follows hc (by simp) ⟨_, mem_words _ (Classical.arbitrary Ident)⟩
    fun x hx => Terminal.eq_identifier hx

theorem integer_tracks :
    Tracks p q (fun x : Nat × Span => [.integer x.1 x.2]) integer integer := by
  have hneeds : Needs .integer integer := needs_of_expect (by simp) fun c x hx hread => by
    cases x with
    | integer value span => exact ⟨(value, span), integer_before hread⟩
    | _ => simp [Terminal.token] at hx
  refine fun c hc => hneeds.follows hc (by simp) ⟨_, mem_words _ (0, ⟨0, 0⟩)⟩ fun x hx => ?_
  cases x with
  | integer value span => exact mem_words _ (value, span)
  | _ => simp [Terminal.token] at hx

theorem string_tracks :
    Tracks p q (fun x : String × Span => [.string x.1 x.2]) string string := by
  have hneeds : Needs .string string := needs_of_expect (by simp) fun c x hx hread => by
    cases x with
    | string value span => exact ⟨(value, span), string_before hread⟩
    | _ => simp [Terminal.token] at hx
  refine fun c hc => hneeds.follows hc (by simp) ⟨_, mem_words _ ("", ⟨0, 0⟩)⟩ fun x hx => ?_
  cases x with
  | string value span => exact mem_words _ (value, span)
  | _ => simp [Terminal.token] at hx

theorem varType_tracks : Tracks p q VarType.terminals varType varType := by
  intro c hc
  have hne := mem_words VarType.terminals (Classical.arbitrary VarType)
  refine .bindCurrent ?_ fun t ht => by simp only [ht]
  split
  · apply Follows.widen
    · apply (ident_tracks c hc).bind hc
      intro name name' c₁ hc₁
      exact .pure hc₁ trivial trivial
    · rintro _ ⟨_, ⟨name, rfl⟩, _, rfl, rfl⟩
      exact ⟨.object name, rfl⟩
  · rename_i k hk
    cases htype : Primitive.ofKeyword? k with
    | none => exact .unexpected hc ⟨_, hne⟩
    | some type =>
      obtain rfl := keyword_of_ofKeyword? htype
      apply Follows.widen
      · apply (takeKeyword_follows hc hk).bind hc
        intro span span' c₁ hc₁
        exact .pure hc₁ trivial trivial
      · rintro _ ⟨_, ⟨span, rfl⟩, _, rfl, rfl⟩
        exact ⟨.primitive type span, rfl⟩
  · exact .unexpected hc ⟨_, hne⟩

theorem returnType_tracks : Tracks p q ReturnType.terminals returnType returnType := by
  intro c hc
  apply (acceptKeyword?_proposes hc .kwVoid).bind (M := 1) hc
  · rintro _ ⟨_, ⟨span, rfl⟩, _, rfl, rfl⟩
    exact ⟨.void span, rfl⟩
  · apply Follows.widen
    · apply (varType_tracks c hc).bind hc
      intro type type' c₁ hc₁
      exact .pure hc₁ trivial trivial
    · rintro _ ⟨_, ⟨type, rfl⟩, _, rfl, rfl⟩
      exact ⟨.value type, by simp [ReturnType.terminals]⟩
  · intro span span' c₁ hc₁
    exact .pure hc₁ trivial trivial

/-! ### Names and what follows them -/

section

variable (expr : Reader Expr)

/-- The arguments of a call, behind its name. -/
def callRest (receiver : Option (Ident × Span)) (name : Ident) : Reader Call := do
  let left ← expect (.symbol .leftParen)
  let args ← argsWith expr
  let right ← expect (.symbol .rightParen)
  return .mk receiver name left args right

/-- What follows the first name of a call. -/
def callTail (kind : Kind) (name : Ident) : Reader Call :=
  if kind = .symbol .dot then do
    let dot ← expect (.symbol .dot)
    callRest expr (some (name, dot)) (← ident)
  else callRest expr none name

/-- What follows the name that a term starts with. -/
def nameTail (kind : Kind) (name : Ident) : Reader Term :=
  match kind with
  | .symbol .leftParen => .call <$> callTail expr kind name
  | .symbol .dot => .call <$> callTail expr kind name
  | .symbol .leftBracket => .element name <$> indexWith expr
  | _ => pure (.var name)

/-- To look behind a name before it is read is the same as to read it and look then. -/
theorem peek_bind_ident (k : Kind → Ident → Reader α) :
    (get >>= fun c : Cursor => ident >>= k (c.peek 1).kind) =
      ident >>= fun name => current >>= fun t => k t.kind name := by
  funext c
  have hident : Gives ident c fun _ c₁ => c.peek 1 = c₁.current := by
    refine Gives.expect.bind fun span c₁ h₁ => ?_
    refine Gives.textOf.bind fun text c₂ h₂ => .pure ?_
    obtain ⟨hcurrent, rfl⟩ := h₁
    obtain ⟨-, rfl⟩ := h₂
    obtain ⟨source, ahead, last⟩ := c
    cases ahead with
    | nil => rfl
    | cons t ts =>
      obtain rfl : t = ⟨.identifier, span⟩ := hcurrent
      simp [Cursor.advance, Cursor.peek, Cursor.current]
  have hget : (get >>= fun c : Cursor => ident >>= k (c.peek 1).kind) c =
    (ident >>= k (c.peek 1).kind) c := rfl
  rw [hget, bind_apply, bind_apply]
  cases h : ident c with
  | error halt => rfl
  | ok result =>
    obtain ⟨name, c₁⟩ := result
    have hpeek := hident name c₁ h
    have hcurrent : (current >>= fun t => k t.kind name) c₁ = k c₁.current.kind name c₁ := rfl
    simp only [hpeek, hcurrent]

theorem callWith_apply (c : Cursor) :
    callWith expr c = (ident >>= fun name => callTail expr (c.peek 1).kind name) c := by
  have hget : callWith expr c = ((if (c.peek 1).kind = .symbol .dot then do
      let name ← ident
      return some (name, ← expect (.symbol .dot))
    else pure none : Reader (Option (Ident × Span))) >>= fun receiver =>
      ident >>= fun name => callRest expr receiver name) c := rfl
  rw [hget]
  by_cases hdot : (c.peek 1).kind = .symbol .dot
  · simp only [hdot, callTail, if_true, bind_assoc, pure_bind]
  · simp only [hdot, callTail, if_false, pure_bind]

theorem callWith_eq :
    callWith expr = ident >>= fun name => current >>= fun t => callTail expr t.kind name := by
  rw [← peek_bind_ident]
  exact funext (callWith_apply expr)

theorem callTerm_apply {c : Cursor} {kind : Kind} (hkind : (c.peek 1).kind = kind) :
    (do return .call (← callWith expr) : Reader Term) c =
      (ident >>= fun name => Term.call <$> callTail expr kind name) c := by
  have hmap : (ident >>= fun name => Term.call <$> callTail expr kind name) =
      (ident >>= fun name => callTail expr kind name) >>= fun call => pure (.call call) := by
    simp only [bind_assoc, map_eq_pure_bind]
  rw [hmap, bind_apply, bind_apply, callWith_apply, hkind]

theorem nameTerm_eq :
    nameTerm expr = ident >>= fun name => current >>= fun t => nameTail expr t.kind name := by
  rw [← peek_bind_ident]
  funext c
  have hget : nameTerm expr c = (match (c.peek 1).kind with
    | .symbol .leftParen => do return .call (← callWith expr)
    | .symbol .dot => do return .call (← callWith expr)
    | .symbol .leftBracket => do
      let name ← ident
      return .element name (← indexWith expr)
    | _ => do return .var (← ident) : Reader Term) c := rfl
  have hget' : (get >>= fun c : Cursor => ident >>= nameTail expr (c.peek 1).kind) c =
    (ident >>= fun name => nameTail expr (c.peek 1).kind name) c := rfl
  rw [hget, hget']
  generalize hkind : (c.peek 1).kind = kind
  unfold nameTail
  split
  · exact callTerm_apply expr hkind
  · exact callTerm_apply expr hkind
  · simp only [map_eq_pure_bind]
  · rfl

end

/-! ### Expressions -/

section

variable {expr expr' : Reader Expr} {term term' : Reader Term}
  (hexpr : Tracks p q Expr.terminals expr expr') (hterm : Tracks p q Term.terminals term term')

include hterm in
theorem opTerm?_proposes (hc : c.Readable) :
    Proposes p q (words opTermTerminals) (opTerm? term) (opTerm? term') c := by
  refine .bindCurrent ?_ fun t ht => by simp only [ht]
  cases hop : BinaryOp.ofKind? c.current.kind with
  | none => exact .decline
  | some op =>
    apply Or.inr
    apply Follows.widen
    · apply (takeSymbol_follows hc (symbol_of_ofKind? hop)).bind hc
      intro span span' c₁ hc₁
      apply (hterm c₁ hc₁).bind hc₁
      intro t t' c₂ hc₂
      exact .pure hc₂ rfl rfl
    · rintro _ ⟨_, ⟨span, rfl⟩, _, ⟨_, ⟨t, rfl⟩, _, rfl, rfl⟩, rfl⟩
      exact ⟨(op, span, t), by simp [opTermTerminals]⟩

theorem opTerm?_declinesAtEnd (term : Reader Term) : DeclinesAtEnd (opTerm? term) :=
  fun _ hc => opTerm?_declines (by rw [hc]; rfl)

include hterm in
theorem exprWith_tracks : Tracks p q Expr.terminals (exprWith term) (exprWith term') := by
  intro c hc
  have hne : [] ∉ words opTermTerminals := by
    rintro ⟨x, hx⟩
    simp [opTermTerminals] at hx
  have hmany (c : Cursor) (hc : c.Readable) := many_follows (c := c)
    (fun c hc => opTerm?_proposes hterm hc) hne (opTerm?_declinesAtEnd term)
    (opTerm?_declinesAtEnd term') hc
  apply Follows.widen
  · apply (hterm c hc).bind hc
    intro head head' c₁ hc₁
    apply (hmany c₁ hc₁).bind hc₁
    intro tail tail' c₂ hc₂
    exact .pure hc₂ trivial trivial
  · rintro _ ⟨_, ⟨head, rfl⟩, _, ⟨_, htail, _, rfl, rfl⟩, rfl⟩
    obtain ⟨tail, rfl⟩ := kstar_words_le _ htail
    exact ⟨.mk head (.ofList tail), by simp [Expr.terminals, OpTerms.terminals_ofList]⟩

include hexpr in
theorem argument?_proposes (hc : c.Readable) :
    Proposes p q (words Expr.terminals) (argument? expr) (argument? expr') c := by
  refine .bindCurrent ?_ fun t ht => by simp only [ht]
  split
  · exact .decline
  · apply Or.inr
    rw [← mul_one (words Expr.terminals)]
    apply (hexpr c hc).bind hc
    intro e e' c₁ hc₁
    exact .pure hc₁ rfl rfl

include hexpr in
theorem argsWith_tracks : Tracks p q Args.terminals (argsWith expr) (argsWith expr') := by
  intro c hc
  have hargs := separated?_proposes (fun c hc => argument?_proposes hexpr hc) rfl hc
  apply hargs.bind (M := 1) hc
  · rintro _ ⟨_, ⟨xs, rfl⟩, _, rfl, rfl⟩
    exact ⟨.ofSeparated (some xs), by simp [Args.terminals_ofSeparated]⟩
  · apply Follows.widen
    · exact .pure hc trivial trivial
    · rintro _ rfl
      exact ⟨.none, rfl⟩
  · intro xs xs' c₁ hc₁
    exact .pure hc₁ trivial trivial

/-- The words of the arguments of a call with their parentheses. -/
def argsWords : Language Terminal :=
  words (fun left => [.symbol .leftParen left]) * (words Args.terminals *
    (words (fun right => [.symbol .rightParen right]) * 1))

/-- The words behind the first name of a call. -/
def callTailWords : Language Terminal :=
  words (fun dot => [.symbol .dot dot]) * (words Ident.terminals * argsWords) + argsWords

theorem call_words_le : words Ident.terminals * callTailWords ≤ words Call.terminals := by
  have hargs {word : List Terminal} (h : word ∈ argsWords) : ∃ left args right,
      word = .symbol .leftParen left :: (Args.terminals args ++ [.symbol .rightParen right]) := by
    obtain ⟨_, ⟨left, rfl⟩, _, ⟨_, ⟨args, rfl⟩, _, ⟨_, ⟨right, rfl⟩, _, rfl, rfl⟩, rfl⟩, rfl⟩ := h
    exact ⟨left, args, right, rfl⟩
  rintro _ ⟨_, ⟨name, rfl⟩, _, hdot | hplain, rfl⟩
  · obtain ⟨_, ⟨dot, rfl⟩, _, ⟨_, ⟨method, rfl⟩, _, hmore, rfl⟩, rfl⟩ := hdot
    obtain ⟨left, args, right, rfl⟩ := hargs hmore
    exact ⟨.mk (some (name, dot)) method left args right, rfl⟩
  · obtain ⟨left, args, right, rfl⟩ := hargs hplain
    exact ⟨.mk none name left args right, rfl⟩

include hexpr in
theorem callRest_follows (receiver receiver' : Option (Ident × Span)) (name name' : Ident)
    (hc : c.Readable) :
    Follows p q argsWords (fun _ => True) (callRest expr receiver name)
      (callRest expr' receiver' name') c := by
  apply (expectSymbol_follows hc .leftParen).bind hc
  intro left left' c₁ hc₁
  apply (argsWith_tracks hexpr c₁ hc₁).bind hc₁
  intro args args' c₂ hc₂
  apply (expectSymbol_follows hc₂ .rightParen).bind hc₂
  intro right right' c₃ hc₃
  exact .pure hc₃ trivial trivial

include hexpr in
theorem callTail_follows (kind : Kind) (name name' : Ident) (hc : c.Readable) :
    Follows p q callTailWords (fun _ => True) (callTail expr kind name)
      (callTail expr' kind name') c := by
  unfold callTail
  split
  · apply Follows.widen
    · apply (expectSymbol_follows hc .dot).bind hc
      intro dot dot' c₁ hc₁
      apply (ident_tracks c₁ hc₁).bind hc₁
      intro method method' c₂ hc₂
      exact callRest_follows hexpr _ _ _ _ hc₂
    · exact fun _ h => .inl h
  · exact (callRest_follows hexpr _ _ _ _ hc).widen fun _ h => .inr h

include hexpr in
theorem callWith_tracks : Tracks p q Call.terminals (callWith expr) (callWith expr') := by
  intro c hc
  rw [callWith_eq, callWith_eq]
  refine .widen ?_ call_words_le
  apply (ident_tracks c hc).bind hc
  intro name name' c₁ hc₁
  exact .bindCurrent (callTail_follows hexpr _ _ _ hc₁) fun t ht => by rw [ht]

include hexpr in
theorem indexWith_tracks : Tracks p q Index.terminals (indexWith expr) (indexWith expr') := by
  intro c hc
  apply Follows.widen
  · apply (expectSymbol_follows hc .leftBracket).bind hc
    intro left left' c₁ hc₁
    apply (hexpr c₁ hc₁).bind hc₁
    intro e e' c₂ hc₂
    apply (expectSymbol_follows hc₂ .rightBracket).bind hc₂
    intro right right' c₃ hc₃
    exact .pure hc₃ trivial trivial
  · rintro _ ⟨_, ⟨left, rfl⟩, _, ⟨_, ⟨e, rfl⟩, _, ⟨_, ⟨right, rfl⟩, _, rfl, rfl⟩, rfl⟩, rfl⟩
    exact ⟨.mk left e right, rfl⟩

include hexpr in
theorem nameTail_follows (kind : Kind) (name name' : Ident) (hc : c.Readable) :
    Follows p q (callTailWords + (words Index.terminals + 1)) (fun _ => True)
      (nameTail expr kind name) (nameTail expr' kind name') c := by
  have hcall : Follows p q (callTailWords + (words Index.terminals + 1)) (fun _ => True)
      (Term.call <$> callTail expr kind name) (Term.call <$> callTail expr' kind name') c := by
    have htail := callTail_follows hexpr kind name name' hc
    exact (htail.map hc (fun _ => trivial) fun _ => trivial).widen fun _ h => .inl h
  unfold nameTail
  split
  · exact hcall
  · exact hcall
  · have hindex := indexWith_tracks hexpr c hc
    exact (hindex.map hc (fun _ => trivial) fun _ => trivial).widen fun _ h => .inr (.inl h)
  · apply Follows.widen
    · exact .pure hc trivial trivial
    · exact fun _ h => .inr (.inr h)

include hexpr in
theorem nameTerm_tracks : Tracks p q Term.terminals (nameTerm expr) (nameTerm expr') := by
  intro c hc
  rw [nameTerm_eq, nameTerm_eq]
  apply Follows.widen
  · apply (ident_tracks c hc).bind hc
    intro name name' c₁ hc₁
    exact .bindCurrent (nameTail_follows hexpr _ name name' hc₁) fun t ht => by rw [ht]
  · rintro _ ⟨_, ⟨name, rfl⟩, tail, hcall | hindex | hvar, rfl⟩
    · obtain ⟨call, hterminals⟩ := call_words_le (Language.append_mem_mul (mem_words _ name) hcall)
      exact ⟨.call call, hterminals⟩
    · obtain ⟨index, rfl⟩ := hindex
      exact ⟨.element name index, rfl⟩
    · obtain rfl : tail = [] := hvar
      exact ⟨.var name, rfl⟩

include hexpr in
theorem parenTerm_follows (hc : c.Readable) (hs : c.current.kind = .symbol .leftParen) :
    Follows p q (words Term.terminals) (fun _ => True) (parenTerm expr) (parenTerm expr') c := by
  apply Follows.widen
  · apply (takeSymbol_follows hc hs).bind hc
    intro left left' c₁ hc₁
    apply (hexpr c₁ hc₁).bind hc₁
    intro e e' c₂ hc₂
    apply (expectSymbol_follows hc₂ .rightParen).bind hc₂
    intro right right' c₃ hc₃
    exact .pure hc₃ trivial trivial
  · rintro _ ⟨_, ⟨left, rfl⟩, _, ⟨_, ⟨e, rfl⟩, _, ⟨_, ⟨right, rfl⟩, _, rfl, rfl⟩, rfl⟩, rfl⟩
    exact ⟨.paren left e right, rfl⟩

include hterm in
theorem unaryTerm_follows (hc : c.Readable) (op : UnaryOp)
    (hs : c.current.kind = .symbol op.symbol) :
    Follows p q (words Term.terminals) (fun _ => True) (unaryTerm term op)
      (unaryTerm term' op) c := by
  apply Follows.widen
  · apply (takeSymbol_follows hc hs).bind hc
    intro span span' c₁ hc₁
    apply (hterm c₁ hc₁).bind hc₁
    intro t t' c₂ hc₂
    exact .pure hc₂ trivial trivial
  · rintro _ ⟨_, ⟨span, rfl⟩, _, ⟨_, ⟨t, rfl⟩, _, rfl, rfl⟩, rfl⟩
    exact ⟨.unary op span t, by simp [Term.terminals]⟩

theorem constantTerm_follows (hc : c.Readable) {k : Keyword} (hk : c.current.kind = .keyword k) :
    Follows p q (words Term.terminals) (fun _ => True) (constantTerm k) (constantTerm k) c := by
  unfold constantTerm Grammar.constantTerm
  cases hvalue : NamedConstant.ofKind? (.keyword k) with
  | none => exact .unexpected hc ⟨_, mem_words _ (Classical.arbitrary Term)⟩
  | some value =>
    rw [keyword_of_ofKind? hvalue] at hk
    apply Follows.widen
    · apply (takeKeyword_follows hc hk).bind hc
      intro span span' c₁ hc₁
      exact .pure hc₁ trivial trivial
    · rintro _ ⟨_, ⟨span, rfl⟩, _, rfl, rfl⟩
      exact ⟨.named value span, rfl⟩

include hexpr hterm in
theorem termWith_tracks :
    Tracks p q Term.terminals (termWith expr term) (termWith expr' term') := by
  intro c hc
  refine .bindCurrent ?_ fun t ht => by simp only [ht]
  split
  · apply Follows.widen
    · apply (integer_tracks c hc).bind hc
      intro x x' c₁ hc₁
      exact .pure hc₁ trivial trivial
    · rintro _ ⟨_, ⟨x, rfl⟩, _, rfl, rfl⟩
      exact ⟨.integer x.1 x.2, rfl⟩
  · apply Follows.widen
    · apply (string_tracks c hc).bind hc
      intro x x' c₁ hc₁
      exact .pure hc₁ trivial trivial
    · rintro _ ⟨_, ⟨x, rfl⟩, _, rfl, rfl⟩
      exact ⟨.string x.1 x.2, rfl⟩
  · rename_i hk
    exact constantTerm_follows hc hk
  · rename_i hs
    exact parenTerm_follows hexpr hc hs
  · rename_i hs
    exact unaryTerm_follows hterm hc .neg hs
  · rename_i hs
    exact unaryTerm_follows hterm hc .not hs
  · exact nameTerm_tracks hexpr c hc
  · exact .unexpected hc ⟨_, mem_words _ (Classical.arbitrary Term)⟩

end

theorem expr_term_track (h : n ≤ m) :
    Tracks p q Expr.terminals (expr n) (expr m) ∧ Tracks p q Term.terminals (term n) (term m) := by
  induction n generalizing m with
  | zero =>
    refine ⟨fun c hc => .tooDeep hc ?_, fun c hc => .tooDeep hc ?_⟩
    · exact ⟨_, mem_words _ (Classical.arbitrary Expr)⟩
    · exact ⟨_, mem_words _ (Classical.arbitrary Term)⟩
  | succ n ih =>
    obtain ⟨m, rfl⟩ := Nat.exists_eq_add_of_le' (Nat.le_trans (Nat.le_add_left 1 n) h)
    have htracks := ih (Nat.le_of_succ_le_succ h)
    exact ⟨fun c hc => (exprWith_tracks htracks.2 c hc).nested,
      fun c hc => (termWith_tracks htracks.1 htracks.2 c hc).nested⟩

/-! ### Statements -/

section

variable {expr expr' : Reader Expr} {statements statements' : Reader Stmts}
  (hexpr : Tracks p q Expr.terminals expr expr')
  (hstatements : Tracks p q Stmts.terminals statements statements')

include hexpr in
theorem index_follows (hc : c.Readable) {b : Prop} [Decidable b] :
    Follows p q (words fun index : Option Index => index.elim [] Index.terminals) (fun _ => True)
      (if b then some <$> indexWith expr else pure none)
      (if b then some <$> indexWith expr' else pure none) c := by
  split
  · apply Follows.widen
    · exact (indexWith_tracks hexpr c hc).map hc (fun _ => trivial) fun _ => trivial
    · rintro _ ⟨index, rfl⟩
      exact ⟨some index, rfl⟩
  · apply Follows.widen
    · exact .pure hc trivial trivial
    · rintro _ rfl
      exact ⟨none, rfl⟩

include hexpr in
theorem assignment_tracks : Tracks p q Stmt.terminals (assignment expr) (assignment expr') := by
  intro c hc
  apply Follows.widen
  · apply (expectKeyword_follows hc .kwLet).bind hc
    intro keyword keyword' c₁ hc₁
    apply (ident_tracks c₁ hc₁).bind hc₁
    intro target target' c₂ hc₂
    apply Follows.bindCurrent
    · apply Follows.bindIte
      apply (index_follows hexpr hc₂).bind hc₂
      intro index index' c₃ hc₃
      apply (expectSymbol_follows hc₃ .equal).bind hc₃
      intro equal equal' c₄ hc₄
      apply (hexpr c₄ hc₄).bind hc₄
      intro value value' c₅ hc₅
      apply (expectSymbol_follows hc₅ .semicolon).bind hc₅
      intro semicolon semicolon' c₆ hc₆
      exact .pure hc₆ trivial trivial
    · intro t ht
      simp only [ht]
  · rintro _ ⟨_, ⟨keyword, rfl⟩, _, ⟨_, ⟨target, rfl⟩, _, ⟨_, ⟨index, rfl⟩, _, ⟨_, ⟨equal, rfl⟩, _,
      ⟨_, ⟨value, rfl⟩, _, ⟨_, ⟨semicolon, rfl⟩, _, rfl, rfl⟩, rfl⟩, rfl⟩, rfl⟩, rfl⟩, rfl⟩
    refine ⟨.assign keyword target index equal value semicolon, ?_⟩
    cases index <;> rfl

include hstatements in
theorem blockWith_tracks :
    Tracks p q Block.terminals (blockWith statements) (blockWith statements') := by
  intro c hc
  apply Follows.widen
  · apply (expectSymbol_follows hc .leftBrace).bind hc
    intro left left' c₁ hc₁
    apply (hstatements c₁ hc₁).bind hc₁
    intro body body' c₂ hc₂
    apply (expectSymbol_follows hc₂ .rightBrace).bind hc₂
    intro right right' c₃ hc₃
    exact .pure hc₃ trivial trivial
  · rintro _ ⟨_, ⟨left, rfl⟩, _, ⟨_, ⟨body, rfl⟩, _, ⟨_, ⟨right, rfl⟩, _, rfl, rfl⟩, rfl⟩, rfl⟩
    exact ⟨.mk left body right, rfl⟩

include hstatements in
theorem otherwise_tracks :
    Tracks p q Otherwise.terminals (otherwise statements) (otherwise statements') := by
  intro c hc
  apply (acceptKeyword?_proposes hc .kwElse).bind (M := words Block.terminals) hc
  · rintro _ ⟨_, ⟨keyword, rfl⟩, _, ⟨block, rfl⟩, rfl⟩
    exact ⟨.some keyword block, rfl⟩
  · apply Follows.widen
    · exact .pure hc trivial trivial
    · rintro _ rfl
      exact ⟨.none, rfl⟩
  · intro keyword keyword' c₁ hc₁
    rw [← mul_one (words Block.terminals)]
    apply (blockWith_tracks hstatements c₁ hc₁).bind hc₁
    intro block block' c₂ hc₂
    exact .pure hc₂ trivial trivial

include hexpr hstatements in
theorem branch_tracks :
    Tracks p q Stmt.terminals (branch expr statements) (branch expr' statements') := by
  intro c hc
  apply Follows.widen
  · apply (expectKeyword_follows hc .kwIf).bind hc
    intro keyword keyword' c₁ hc₁
    apply (expectSymbol_follows hc₁ .leftParen).bind hc₁
    intro left left' c₂ hc₂
    apply (hexpr c₂ hc₂).bind hc₂
    intro condition condition' c₃ hc₃
    apply (expectSymbol_follows hc₃ .rightParen).bind hc₃
    intro right right' c₄ hc₄
    apply (blockWith_tracks hstatements c₄ hc₄).bind hc₄
    intro yes yes' c₅ hc₅
    apply (otherwise_tracks hstatements c₅ hc₅).bind hc₅
    intro no no' c₆ hc₆
    exact .pure hc₆ trivial trivial
  · rintro _ ⟨_, ⟨keyword, rfl⟩, _, ⟨_, ⟨left, rfl⟩, _, ⟨_, ⟨condition, rfl⟩, _, ⟨_, ⟨right, rfl⟩,
      _, ⟨_, ⟨yes, rfl⟩, _, ⟨_, ⟨no, rfl⟩, _, rfl, rfl⟩, rfl⟩, rfl⟩, rfl⟩, rfl⟩, rfl⟩
    exact ⟨.branch keyword left condition right yes no, by simp [Stmt.terminals]⟩

include hexpr hstatements in
theorem loop_tracks :
    Tracks p q Stmt.terminals (loop expr statements) (loop expr' statements') := by
  intro c hc
  apply Follows.widen
  · apply (expectKeyword_follows hc .kwWhile).bind hc
    intro keyword keyword' c₁ hc₁
    apply (expectSymbol_follows hc₁ .leftParen).bind hc₁
    intro left left' c₂ hc₂
    apply (hexpr c₂ hc₂).bind hc₂
    intro condition condition' c₃ hc₃
    apply (expectSymbol_follows hc₃ .rightParen).bind hc₃
    intro right right' c₄ hc₄
    apply (blockWith_tracks hstatements c₄ hc₄).bind hc₄
    intro body body' c₅ hc₅
    exact .pure hc₅ trivial trivial
  · rintro _ ⟨_, ⟨keyword, rfl⟩, _, ⟨_, ⟨left, rfl⟩, _, ⟨_, ⟨condition, rfl⟩, _,
      ⟨_, ⟨right, rfl⟩, _, ⟨_, ⟨body, rfl⟩, _, rfl, rfl⟩, rfl⟩, rfl⟩, rfl⟩, rfl⟩
    exact ⟨.loop keyword left condition right body, by simp [Stmt.terminals]⟩

include hexpr in
theorem perform_tracks : Tracks p q Stmt.terminals (perform expr) (perform expr') := by
  intro c hc
  apply Follows.widen
  · apply (expectKeyword_follows hc .kwDo).bind hc
    intro keyword keyword' c₁ hc₁
    apply (callWith_tracks hexpr c₁ hc₁).bind hc₁
    intro call call' c₂ hc₂
    apply (expectSymbol_follows hc₂ .semicolon).bind hc₂
    intro semicolon semicolon' c₃ hc₃
    exact .pure hc₃ trivial trivial
  · rintro _ ⟨_, ⟨keyword, rfl⟩, _, ⟨_, ⟨call, rfl⟩, _, ⟨_, ⟨semicolon, rfl⟩, _, rfl, rfl⟩, rfl⟩,
      rfl⟩
    exact ⟨.perform keyword call semicolon, rfl⟩

include hexpr in
theorem value_follows (hc : c.Readable) {b : Prop} [Decidable b] :
    Follows p q (words fun value : Option Expr => value.elim [] Expr.terminals) (fun _ => True)
      (if b then pure none else some <$> expr) (if b then pure none else some <$> expr') c := by
  split
  · apply Follows.widen
    · exact .pure hc trivial trivial
    · rintro _ rfl
      exact ⟨none, rfl⟩
  · apply Follows.widen
    · exact (hexpr c hc).map hc (fun _ => trivial) fun _ => trivial
    · rintro _ ⟨e, rfl⟩
      exact ⟨some e, rfl⟩

include hexpr in
theorem finish_tracks : Tracks p q Stmt.terminals (finish expr) (finish expr') := by
  intro c hc
  apply Follows.widen
  · apply (expectKeyword_follows hc .kwReturn).bind hc
    intro keyword keyword' c₁ hc₁
    apply Follows.bindCurrent
    · apply Follows.bindIte
      apply (value_follows hexpr hc₁).bind hc₁
      intro value value' c₂ hc₂
      apply (expectSymbol_follows hc₂ .semicolon).bind hc₂
      intro semicolon semicolon' c₃ hc₃
      exact .pure hc₃ trivial trivial
    · intro t ht
      simp only [ht]
  · rintro _ ⟨_, ⟨keyword, rfl⟩, _, ⟨_, ⟨value, rfl⟩, _, ⟨_, ⟨semicolon, rfl⟩, _, rfl, rfl⟩, rfl⟩,
      rfl⟩
    refine ⟨.finish keyword value semicolon, ?_⟩
    cases value <;> rfl

theorem Tracks.proposes [Nonempty α] {f : β → List Terminal} {r r' : Reader α}
    (h : Tracks p q f r r') (hc : c.Readable) :
    Proposes p q (words f) (some <$> r) (some <$> r') c :=
  .inr ((h c hc).map hc (fun _ => rfl) fun _ => rfl)

include hexpr hstatements in
theorem statement?_proposes (hc : c.Readable) :
    Proposes p q (words Stmt.terminals) (statement? expr statements)
      (statement? expr' statements') c := by
  apply Proposes.bindCurrent
  · split
    · exact (assignment_tracks hexpr).proposes hc
    · exact (branch_tracks hexpr hstatements).proposes hc
    · exact (loop_tracks hexpr hstatements).proposes hc
    · exact (perform_tracks hexpr).proposes hc
    · exact (finish_tracks hexpr).proposes hc
    · exact .decline
  · intro t ht
    simp only [ht]

theorem statement?_declinesAtEnd (expr : Reader Expr) (statements : Reader Stmts) :
    DeclinesAtEnd (statement? expr statements) := by
  intro c hc
  refine bind_of_ok rfl ?_
  rw [hc]
  rfl

include hexpr hstatements in
theorem statementsWith_tracks :
    Tracks p q Stmts.terminals (statementsWith expr statements)
      (statementsWith expr' statements') := by
  intro c hc
  have hne : [] ∉ words Stmt.terminals := by
    rintro ⟨s, hs⟩
    cases s <;> simp [Stmt.terminals] at hs
  have hmany := many_follows (fun c hc => statement?_proposes hexpr hstatements hc) hne
    (statement?_declinesAtEnd expr statements) (statement?_declinesAtEnd expr' statements') hc
  apply Follows.widen
  · apply hmany.bind hc
    intro body body' c₁ hc₁
    exact .pure hc₁ trivial trivial
  · rintro _ ⟨_, hbody, _, rfl, rfl⟩
    obtain ⟨body, rfl⟩ := kstar_words_le _ hbody
    exact ⟨.ofList body, by simp [Stmts.terminals_ofList]⟩

end

theorem statements_track (h : n ≤ m) :
    Tracks p q Stmts.terminals (statements n) (statements m) := by
  induction n generalizing m with
  | zero => exact fun c hc => .tooDeep hc ⟨_, mem_words _ .nil⟩
  | succ n ih =>
    obtain ⟨m, rfl⟩ := Nat.exists_eq_add_of_le' (Nat.le_trans (Nat.le_add_left 1 n) h)
    have hnm := Nat.le_of_succ_le_succ h
    intro c hc
    exact (statementsWith_tracks (expr_term_track hnm).1 (ih hnm) c hc).nested

/-! ### Declarations -/

theorem names_tracks : Tracks p q (Separated.terminals Ident.terminals) names names :=
  fun _ hc => separated_follows (fun _ hc => ident_tracks.proposes hc) rfl hc

theorem classVar?_proposes (hc : c.Readable) :
    Proposes p q (words ClassVarDec.terminals) classVar? classVar? c := by
  refine .bindCurrent ?_ fun t ht => by simp only [ht]
  cases hkind : ClassVarKind.ofKind? c.current.kind with
  | none => exact .decline
  | some kind =>
    apply Or.inr
    apply Follows.widen
    · apply (takeKeyword_follows hc (keyword_of_classVarKind hkind)).bind hc
      intro keyword keyword' c₁ hc₁
      apply (varType_tracks c₁ hc₁).bind hc₁
      intro type type' c₂ hc₂
      apply (names_tracks c₂ hc₂).bind hc₂
      intro names names' c₃ hc₃
      apply (expectSymbol_follows hc₃ .semicolon).bind hc₃
      intro semicolon semicolon' c₄ hc₄
      exact .pure hc₄ rfl rfl
    · rintro _ ⟨_, ⟨keyword, rfl⟩, _, ⟨_, ⟨type, rfl⟩, _, ⟨_, ⟨names, rfl⟩, _,
        ⟨_, ⟨semicolon, rfl⟩, _, rfl, rfl⟩, rfl⟩, rfl⟩, rfl⟩
      exact ⟨⟨kind, keyword, type, names, semicolon⟩, rfl⟩

theorem var?_proposes (hc : c.Readable) : Proposes p q (words VarDec.terminals) var? var? c := by
  apply Proposes.widen
  · apply (acceptKeyword?_proposes hc .kwVar).andThen hc
    · rfl
    · rfl
    · intro keyword keyword' c₁ hc₁
      apply (varType_tracks c₁ hc₁).bind hc₁
      intro type type' c₂ hc₂
      apply (names_tracks c₂ hc₂).bind hc₂
      intro names names' c₃ hc₃
      apply (expectSymbol_follows hc₃ .semicolon).bind hc₃
      intro semicolon semicolon' c₄ hc₄
      exact .pure hc₄ rfl rfl
  · rintro _ ⟨_, ⟨keyword, rfl⟩, _, ⟨_, ⟨type, rfl⟩, _, ⟨_, ⟨names, rfl⟩, _,
      ⟨_, ⟨semicolon, rfl⟩, _, rfl, rfl⟩, rfl⟩, rfl⟩, rfl⟩
    exact ⟨⟨keyword, type, names, semicolon⟩, rfl⟩

theorem param?_proposes (hc : c.Readable) :
    Proposes p q (words Param.terminals) param? param? c := by
  refine .bindCurrent ?_ fun t ht => by simp only [ht]
  split
  · apply Or.inr
    apply Follows.widen
    · apply (varType_tracks c hc).bind hc
      intro type type' c₁ hc₁
      apply (ident_tracks c₁ hc₁).bind hc₁
      intro name name' c₂ hc₂
      exact .pure hc₂ rfl rfl
    · rintro _ ⟨_, ⟨type, rfl⟩, _, ⟨_, ⟨name, rfl⟩, _, rfl, rfl⟩, rfl⟩
      exact ⟨⟨type, name⟩, rfl⟩
  · exact .decline

theorem params_tracks : Tracks p q paramTerminals params params := by
  intro c hc
  have hparams := separated?_proposes (fun c hc => param?_proposes (p := p) (q := q) hc) rfl hc
  have hpure : params = separated? param? >>= pure := (bind_pure _).symm
  rw [hpure]
  apply hparams.bind (M := 1) hc
  · rintro _ ⟨_, ⟨xs, rfl⟩, _, rfl, rfl⟩
    exact ⟨some xs, by simp [paramTerminals]⟩
  · apply Follows.widen
    · exact .pure hc trivial trivial
    · rintro _ rfl
      exact ⟨none, rfl⟩
  · intro xs xs' c₁ hc₁
    exact .pure hc₁ trivial trivial

theorem body_tracks (h : n ≤ m) : Tracks p q Body.terminals (body n) (body m) := by
  intro c hc
  have hne : [] ∉ words VarDec.terminals := by
    rintro ⟨dec, hdec⟩
    simp [VarDec.terminals] at hdec
  have hend : DeclinesAtEnd var? := fun c hc => bind_of_ok (accept?_of_kind_ne (by simp [hc])) rfl
  apply Follows.widen
  · apply (expectSymbol_follows hc .leftBrace).bind hc
    intro left left' c₁ hc₁
    apply (many_follows (fun c hc => var?_proposes hc) hne hend hend hc₁).bind hc₁
    intro vars vars' c₂ hc₂
    apply (statements_track h c₂ hc₂).bind hc₂
    intro body body' c₃ hc₃
    apply (expectSymbol_follows hc₃ .rightBrace).bind hc₃
    intro right right' c₄ hc₄
    exact .pure hc₄ trivial trivial
  · rintro _ ⟨_, ⟨left, rfl⟩, _, ⟨_, hvars, _, ⟨_, ⟨statements, rfl⟩, _,
      ⟨_, ⟨right, rfl⟩, _, rfl, rfl⟩, rfl⟩, rfl⟩, rfl⟩
    obtain ⟨vars, rfl⟩ := kstar_words_le _ hvars
    exact ⟨⟨left, vars, statements, right⟩, rfl⟩

theorem subroutine?_proposes (h : n ≤ m) (hc : c.Readable) :
    Proposes p q (words Subroutine.terminals) (subroutine? n) (subroutine? m) c := by
  refine .bindCurrent ?_ fun t ht => by simp only [ht]
  cases hkind : SubroutineKind.ofKind? c.current.kind with
  | none => exact .decline
  | some kind =>
    apply Or.inr
    apply Follows.widen
    · apply (takeKeyword_follows hc (keyword_of_subroutineKind hkind)).bind hc
      intro keyword keyword' c₁ hc₁
      apply (returnType_tracks c₁ hc₁).bind hc₁
      intro returns returns' c₂ hc₂
      apply (ident_tracks c₂ hc₂).bind hc₂
      intro name name' c₃ hc₃
      apply (expectSymbol_follows hc₃ .leftParen).bind hc₃
      intro left left' c₄ hc₄
      apply (params_tracks c₄ hc₄).bind hc₄
      intro params params' c₅ hc₅
      apply (expectSymbol_follows hc₅ .rightParen).bind hc₅
      intro right right' c₆ hc₆
      apply (body_tracks h c₆ hc₆).bind hc₆
      intro body body' c₇ hc₇
      exact .pure hc₇ rfl rfl
    · rintro _ ⟨_, ⟨keyword, rfl⟩, _, ⟨_, ⟨returns, rfl⟩, _, ⟨_, ⟨name, rfl⟩, _, ⟨_, ⟨left, rfl⟩, _,
        ⟨_, ⟨params, rfl⟩, _, ⟨_, ⟨right, rfl⟩, _, ⟨_, ⟨body, rfl⟩, _, rfl, rfl⟩, rfl⟩, rfl⟩, rfl⟩,
        rfl⟩, rfl⟩, rfl⟩
      exact ⟨⟨kind, keyword, returns, name, left, params, right, body⟩, by
        simp [Subroutine.terminals, Ident.terminals]⟩

theorem classDecl_tracks (h : n ≤ m) :
    Tracks p q ClassDecl.terminals (classDecl n) (classDecl m) := by
  intro c hc
  have hneVars : [] ∉ words ClassVarDec.terminals := by
    rintro ⟨dec, hdec⟩
    simp [ClassVarDec.terminals] at hdec
  have hneSubs : [] ∉ words Subroutine.terminals := by
    rintro ⟨sub, hsub⟩
    simp [Subroutine.terminals] at hsub
  have hendVars : DeclinesAtEnd classVar? := by
    intro c hc
    refine bind_of_ok rfl ?_
    rw [hc]
    rfl
  have hendSubs (levels : Nat) : DeclinesAtEnd (subroutine? levels) := by
    intro c hc
    refine bind_of_ok rfl ?_
    rw [hc]
    rfl
  apply Follows.widen
  · apply (expectKeyword_follows hc .kwClass).bind hc
    intro keyword keyword' c₁ hc₁
    apply (ident_tracks c₁ hc₁).bind hc₁
    intro name name' c₂ hc₂
    apply (expectSymbol_follows hc₂ .leftBrace).bind hc₂
    intro left left' c₃ hc₃
    apply (many_follows (fun c hc => classVar?_proposes hc) hneVars hendVars hendVars hc₃).bind hc₃
    intro vars vars' c₄ hc₄
    apply (many_follows (fun c hc => subroutine?_proposes h hc) hneSubs (hendSubs n) (hendSubs m)
      hc₄).bind hc₄
    intro subroutines subroutines' c₅ hc₅
    apply (expectSymbol_follows hc₅ .rightBrace).bind hc₅
    intro right right' c₆ hc₆
    exact .pure hc₆ trivial trivial
  · rintro _ ⟨_, ⟨keyword, rfl⟩, _, ⟨_, ⟨name, rfl⟩, _, ⟨_, ⟨left, rfl⟩, _, ⟨_, hvars, _,
      ⟨_, hsubs, _, ⟨_, ⟨right, rfl⟩, _, rfl, rfl⟩, rfl⟩, rfl⟩, rfl⟩, rfl⟩, rfl⟩
    obtain ⟨vars, rfl⟩ := kstar_words_le _ hvars
    obtain ⟨subroutines, rfl⟩ := kstar_words_le _ hsubs
    exact ⟨⟨keyword, name, left, vars, subroutines, right⟩, rfl⟩

end Reader

end Jack
