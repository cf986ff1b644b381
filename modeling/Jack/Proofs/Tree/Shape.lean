import Jack.Proofs.Tree.Terminals

/-!
Whether a tree derives a sequence of tokens is a matter of their kinds alone: from terminals of the
same kinds as its own a tree of the same shape can be built.
-/

namespace Jack

/-- Terminals of the same kinds, in the same order. -/
def SameKinds (xs ys : List Terminal) : Prop :=
  xs.map (·.token.kind) = ys.map (·.token.kind)

namespace SameKinds

variable {xs ys zs : List Terminal}

theorem eq_nil (h : SameKinds ys []) : ys = [] := List.map_eq_nil_iff.1 h

theorem split (h : SameKinds ys (xs ++ zs)) :
    ∃ ys₁ ys₂, ys = ys₁ ++ ys₂ ∧ SameKinds ys₁ xs ∧ SameKinds ys₂ zs := by
  rw [SameKinds, List.map_append] at h
  exact List.map_eq_append_iff.1 h

theorem uncons {x : Terminal} (h : SameKinds ys (x :: xs)) :
    ∃ y ys', ys = y :: ys' ∧ y.token.kind = x.token.kind ∧ SameKinds ys' xs := by
  rw [SameKinds, List.map_cons] at h
  exact List.map_eq_cons_iff.1 h

theorem symbol {s : Symbol} {span : Span} (h : SameKinds ys (.symbol s span :: xs)) :
    ∃ span' ys', ys = .symbol s span' :: ys' ∧ SameKinds ys' xs := by
  obtain ⟨y, ys', rfl, hkind, hrest⟩ := h.uncons
  cases y <;> simp [Terminal.token] at hkind
  subst hkind
  exact ⟨_, ys', rfl, hrest⟩

theorem keyword {k : Keyword} {span : Span} (h : SameKinds ys (.keyword k span :: xs)) :
    ∃ span' ys', ys = .keyword k span' :: ys' ∧ SameKinds ys' xs := by
  obtain ⟨y, ys', rfl, hkind, hrest⟩ := h.uncons
  cases y <;> simp [Terminal.token] at hkind
  subst hkind
  exact ⟨_, ys', rfl, hrest⟩

theorem ident {name : Ident} (h : SameKinds ys (name.terminal :: xs)) :
    ∃ (name' : Ident) (ys' : List Terminal), ys = name'.terminal :: ys' ∧ SameKinds ys' xs := by
  obtain ⟨y, ys', rfl, hkind, hrest⟩ := h.uncons
  cases y <;> simp [Terminal.token, Ident.terminal] at hkind
  exact ⟨⟨_, _⟩, ys', rfl, hrest⟩

theorem integer {value : Nat} {span : Span} (h : SameKinds ys [.integer value span]) :
    ∃ value' span', ys = [.integer value' span'] := by
  obtain ⟨y, ys', rfl, hkind, hrest⟩ := h.uncons
  cases y <;> simp [Terminal.token] at hkind
  obtain rfl := hrest.eq_nil
  exact ⟨_, _, rfl⟩

theorem string {value : String} {span : Span} (h : SameKinds ys [.string value span]) :
    ∃ value' span', ys = [.string value' span'] := by
  obtain ⟨y, ys', rfl, hkind, hrest⟩ := h.uncons
  cases y <;> simp [Terminal.token] at hkind
  obtain rfl := hrest.eq_nil
  exact ⟨_, _, rfl⟩

theorem marked {s : Symbol} {span : Span} (h : SameKinds ys (xs ++ [.symbol s span])) :
    ∃ ys₁ span', ys = ys₁ ++ [.symbol s span'] ∧ SameKinds ys₁ xs := by
  obtain ⟨ys₁, ys₂, rfl, h₁, h₂⟩ := h.split
  obtain ⟨span', ys', rfl, h₃⟩ := h₂.symbol
  obtain rfl := h₃.eq_nil
  exact ⟨ys₁, span', rfl, h₁⟩

end SameKinds

/-- From terminals of the kinds of `a` something of the same depth can be built. -/
def Reshapes {α : Type} (f : α → List Terminal) (depth : α → Nat) (a : α) : Prop :=
  ∀ ys, SameKinds ys (f a) → ∃ a', f a' = ys ∧ depth a' = depth a

/-! ### Expressions -/

mutual

theorem Expr.reshapes : ∀ e, Reshapes Expr.terminals Expr.depth e
  | .mk head tail => by
    intro ys h
    obtain ⟨ys₁, ys₂, rfl, h₁, h₂⟩ := h.split
    obtain ⟨head', rfl, hhead⟩ := head.reshapes _ h₁
    obtain ⟨tail', rfl, htail⟩ := tail.reshapes _ h₂
    exact ⟨.mk head' tail', rfl, by simp only [Expr.depth, hhead, htail]⟩

theorem OpTerms.reshapes : ∀ xs, Reshapes OpTerms.terminals OpTerms.depth xs
  | .nil => by
    intro ys h
    obtain rfl := h.eq_nil
    exact ⟨.nil, rfl, rfl⟩
  | .cons op opSpan term rest => by
    intro ys h
    obtain ⟨opSpan', ys', rfl, ha⟩ := h.symbol
    obtain ⟨ys₁, ys₂, rfl, h₁, h₂⟩ := ha.split
    obtain ⟨term', rfl, hterm⟩ := term.reshapes _ h₁
    obtain ⟨rest', rfl, hrest⟩ := rest.reshapes _ h₂
    exact ⟨.cons op opSpan' term' rest', rfl, by simp only [OpTerms.depth, hterm, hrest]⟩

theorem Term.reshapes : ∀ t, Reshapes Term.terminals Term.depth t
  | .integer value span => by
    intro ys h
    obtain ⟨value', span', rfl⟩ := h.integer
    exact ⟨.integer value' span', rfl, rfl⟩
  | .string value span => by
    intro ys h
    obtain ⟨value', span', rfl⟩ := h.string
    exact ⟨.string value' span', rfl, rfl⟩
  | .named value span => by
    intro ys h
    obtain ⟨span', ys', rfl, ha⟩ := h.keyword
    obtain rfl := ha.eq_nil
    exact ⟨.named value span', rfl, rfl⟩
  | .paren left e right => by
    intro ys h
    obtain ⟨left', ys', rfl, ha⟩ := h.symbol
    obtain ⟨ys₁, right', rfl, h₁⟩ := ha.marked
    obtain ⟨e', rfl, he⟩ := e.reshapes _ h₁
    exact ⟨.paren left' e' right', rfl, congrArg (· + 1) he⟩
  | .unary op opSpan t => by
    intro ys h
    obtain ⟨opSpan', ys', rfl, ha⟩ := h.symbol
    obtain ⟨t', rfl, ht⟩ := t.reshapes _ ha
    exact ⟨.unary op opSpan' t', rfl, congrArg (· + 1) ht⟩
  | .var name => by
    intro ys h
    obtain ⟨name', ys', rfl, ha⟩ := h.ident
    obtain rfl := ha.eq_nil
    exact ⟨.var name', rfl, rfl⟩
  | .element name index => by
    intro ys h
    obtain ⟨name', ys', rfl, ha⟩ := h.ident
    obtain ⟨index', rfl, hindex⟩ := index.reshapes _ ha
    exact ⟨.element name' index', rfl, congrArg (· + 1) hindex⟩
  | .call call => by
    intro ys h
    obtain ⟨call', rfl, hcall⟩ := call.reshapes _ h
    exact ⟨.call call', rfl, congrArg (· + 1) hcall⟩

theorem Index.reshapes : ∀ index, Reshapes Index.terminals Index.depth index
  | .mk left e right => by
    intro ys h
    obtain ⟨left', ys', rfl, ha⟩ := h.symbol
    obtain ⟨ys₁, right', rfl, h₁⟩ := ha.marked
    obtain ⟨e', rfl, he⟩ := e.reshapes _ h₁
    exact ⟨.mk left' e' right', rfl, he⟩

theorem Call.reshapes : ∀ call, Reshapes Call.terminals Call.depth call
  | .mk none name left args right => by
    intro ys h
    obtain ⟨name', ys₁, rfl, ha⟩ := h.ident
    obtain ⟨left', ys₂, rfl, hb⟩ := ha.symbol
    obtain ⟨ys₃, right', rfl, hc⟩ := hb.marked
    obtain ⟨args', rfl, hargs⟩ := args.reshapes _ hc
    exact ⟨.mk none name' left' args' right', rfl, hargs⟩
  | .mk (some (receiver, dot)) name left args right => by
    intro ys h
    obtain ⟨receiver', ys₁, rfl, ha⟩ := h.ident
    obtain ⟨dot', ys₂, rfl, hb⟩ := ha.symbol
    obtain ⟨name', ys₃, rfl, hc⟩ := hb.ident
    obtain ⟨left', ys₄, rfl, hd⟩ := hc.symbol
    obtain ⟨ys₅, right', rfl, he⟩ := hd.marked
    obtain ⟨args', rfl, hargs⟩ := args.reshapes _ he
    exact ⟨.mk (some (receiver', dot')) name' left' args' right', rfl, hargs⟩

theorem Args.reshapes : ∀ args, Reshapes Args.terminals Args.depth args
  | .none => by
    intro ys h
    obtain rfl := h.eq_nil
    exact ⟨.none, rfl, rfl⟩
  | .some head tail => by
    intro ys h
    obtain ⟨ys₁, ys₂, rfl, h₁, h₂⟩ := h.split
    obtain ⟨head', rfl, hhead⟩ := head.reshapes _ h₁
    obtain ⟨tail', rfl, htail⟩ := tail.reshapes _ h₂
    exact ⟨.some head' tail', rfl, by simp only [Args.depth, hhead, htail]⟩

theorem MoreArgs.reshapes : ∀ more, Reshapes MoreArgs.terminals MoreArgs.depth more
  | .nil => by
    intro ys h
    obtain rfl := h.eq_nil
    exact ⟨.nil, rfl, rfl⟩
  | .cons comma arg rest => by
    intro ys h
    obtain ⟨comma', ys', rfl, ha⟩ := h.symbol
    obtain ⟨ys₁, ys₂, rfl, h₁, h₂⟩ := ha.split
    obtain ⟨arg', rfl, harg⟩ := arg.reshapes _ h₁
    obtain ⟨rest', rfl, hrest⟩ := rest.reshapes _ h₂
    exact ⟨.cons comma' arg' rest', rfl, by simp only [MoreArgs.depth, harg, hrest]⟩

end

/-! ### Statements -/

mutual

theorem Stmt.reshapes : ∀ s, Reshapes Stmt.terminals Stmt.depth s
  | .assign keyword target none equal value semicolon => by
    intro ys h
    obtain ⟨keyword', ys₁, rfl, ha⟩ := h.keyword
    obtain ⟨target', ys₂, rfl, hb⟩ := ha.ident
    obtain ⟨equal', ys₃, rfl, hc⟩ := hb.symbol
    obtain ⟨ys₄, semicolon', rfl, hd⟩ := hc.marked
    obtain ⟨value', rfl, hvalue⟩ := value.reshapes _ hd
    exact ⟨.assign keyword' target' none equal' value' semicolon', rfl, congrArg (max 0) hvalue⟩
  | .assign keyword target (some index) equal value semicolon => by
    intro ys h
    obtain ⟨keyword', ys₁, rfl, ha⟩ := h.keyword
    obtain ⟨target', ys₂, rfl, hb⟩ := ha.ident
    obtain ⟨ys₃, ys₄, rfl, hc, hd⟩ := hb.split
    obtain ⟨index', rfl, hindex⟩ := index.reshapes _ hc
    obtain ⟨equal', ys₅, rfl, he⟩ := hd.symbol
    obtain ⟨ys₆, semicolon', rfl, hf⟩ := he.marked
    obtain ⟨value', rfl, hvalue⟩ := value.reshapes _ hf
    exact ⟨.assign keyword' target' (some index') equal' value' semicolon', rfl,
      by simp only [Stmt.depth, hindex, hvalue]⟩
  | .branch keyword left condition right yes no => by
    intro ys h
    obtain ⟨keyword', ys₁, rfl, ha⟩ := h.keyword
    obtain ⟨left', ys₂, rfl, hb⟩ := ha.symbol
    obtain ⟨ys₃, ys₄, rfl, hc, hd⟩ := hb.split
    obtain ⟨condition', rfl, hcondition⟩ := condition.reshapes _ hc
    obtain ⟨right', ys₅, rfl, he⟩ := hd.symbol
    obtain ⟨ys₆, ys₇, rfl, hf, hg⟩ := he.split
    obtain ⟨yes', rfl, hyes⟩ := yes.reshapes _ hf
    obtain ⟨no', rfl, hno⟩ := no.reshapes _ hg
    exact ⟨.branch keyword' left' condition' right' yes' no', rfl,
      by simp only [Stmt.depth, hcondition, hyes, hno]⟩
  | .loop keyword left condition right body => by
    intro ys h
    obtain ⟨keyword', ys₁, rfl, ha⟩ := h.keyword
    obtain ⟨left', ys₂, rfl, hb⟩ := ha.symbol
    obtain ⟨ys₃, ys₄, rfl, hc, hd⟩ := hb.split
    obtain ⟨condition', rfl, hcondition⟩ := condition.reshapes _ hc
    obtain ⟨right', ys₅, rfl, he⟩ := hd.symbol
    obtain ⟨body', rfl, hbody⟩ := body.reshapes _ he
    exact ⟨.loop keyword' left' condition' right' body', rfl,
      by simp only [Stmt.depth, hcondition, hbody]⟩
  | .perform keyword call semicolon => by
    intro ys h
    obtain ⟨keyword', ys₁, rfl, ha⟩ := h.keyword
    obtain ⟨ys₂, semicolon', rfl, hb⟩ := ha.marked
    obtain ⟨call', rfl, hcall⟩ := call.reshapes _ hb
    exact ⟨.perform keyword' call' semicolon', rfl, hcall⟩
  | .finish keyword none semicolon => by
    intro ys h
    obtain ⟨keyword', ys₁, rfl, ha⟩ := h.keyword
    obtain ⟨semicolon', ys₂, rfl, hb⟩ := ha.symbol
    obtain rfl := hb.eq_nil
    exact ⟨.finish keyword' none semicolon', rfl, rfl⟩
  | .finish keyword (some value) semicolon => by
    intro ys h
    obtain ⟨keyword', ys₁, rfl, ha⟩ := h.keyword
    obtain ⟨ys₂, semicolon', rfl, hb⟩ := ha.marked
    obtain ⟨value', rfl, hvalue⟩ := value.reshapes _ hb
    exact ⟨.finish keyword' (some value') semicolon', rfl, hvalue⟩

theorem Otherwise.reshapes : ∀ no, Reshapes Otherwise.terminals Otherwise.depth no
  | .none => by
    intro ys h
    obtain rfl := h.eq_nil
    exact ⟨.none, rfl, rfl⟩
  | .some keyword block => by
    intro ys h
    obtain ⟨keyword', ys₁, rfl, ha⟩ := h.keyword
    obtain ⟨block', rfl, hblock⟩ := block.reshapes _ ha
    exact ⟨.some keyword' block', rfl, hblock⟩

theorem Block.reshapes : ∀ b, Reshapes Block.terminals Block.depth b
  | .mk left body right => by
    intro ys h
    obtain ⟨left', ys₁, rfl, ha⟩ := h.symbol
    obtain ⟨ys₂, right', rfl, hb⟩ := ha.marked
    obtain ⟨body', rfl, hbody⟩ := body.reshapes _ hb
    exact ⟨.mk left' body' right', rfl, congrArg (· + 1) hbody⟩

theorem Stmts.reshapes : ∀ body, Reshapes Stmts.terminals Stmts.innerDepth body
  | .nil => by
    intro ys h
    obtain rfl := h.eq_nil
    exact ⟨.nil, rfl, rfl⟩
  | .cons s rest => by
    intro ys h
    obtain ⟨ys₁, ys₂, rfl, ha, hb⟩ := h.split
    obtain ⟨s', rfl, hs⟩ := s.reshapes _ ha
    obtain ⟨rest', rfl, hrest⟩ := rest.reshapes _ hb
    exact ⟨.cons s' rest', rfl, by simp only [Stmts.innerDepth, hs, hrest]⟩

end

/-! ### Declarations -/

/-- Something of the same shape can be built for each of the items, so for all of them. -/
theorem Reshapes.flatMap {α : Type} {f : α → List Terminal} {depth : α → Nat} {as : List α}
    (hitem : ∀ a ∈ as, Reshapes f depth a) :
    ∀ ys, SameKinds ys (as.flatMap f) →
      ∃ as' : List α, as'.flatMap f = ys ∧ as'.map depth = as.map depth := by
  induction as with
  | nil =>
    intro ys h
    obtain rfl := h.eq_nil
    exact ⟨[], rfl, rfl⟩
  | cons a as ih =>
    intro ys h
    rw [List.forall_mem_cons] at hitem
    obtain ⟨ys₁, ys₂, rfl, ha, hb⟩ := h.split
    obtain ⟨a', rfl, hdepth⟩ := hitem.1 _ ha
    obtain ⟨as', rfl, hdepths⟩ := ih hitem.2 _ hb
    exact ⟨a' :: as', rfl, by simp only [List.map_cons, hdepth, hdepths]⟩

theorem Reshapes.separated {α : Type} {f : α → List Terminal}
    (hitem : ∀ a, Reshapes f (fun _ => 0) a)
    (xs : Separated α) : Reshapes (Separated.terminals f) (fun _ => 0) xs := by
  intro ys h
  have hcomma : ∀ x : Span × α, Reshapes (commaTerminals f) (fun _ => 0) x := by
    intro x ys hx
    obtain ⟨comma', ys₁, rfl, ha⟩ := hx.symbol
    obtain ⟨a', rfl, -⟩ := hitem x.2 _ ha
    exact ⟨(comma', a'), rfl, rfl⟩
  obtain ⟨ys₁, ys₂, rfl, ha, hb⟩ := h.split
  obtain ⟨head', rfl, -⟩ := hitem xs.head _ ha
  obtain ⟨tail', rfl, -⟩ := Reshapes.flatMap (fun x _ => hcomma x) _ hb
  exact ⟨⟨head', tail'⟩, rfl, rfl⟩

theorem Ident.reshapes (name : Ident) : Reshapes Ident.terminals (fun _ => 0) name := by
  intro ys h
  obtain ⟨name', ys₁, rfl, ha⟩ := h.ident
  obtain rfl := ha.eq_nil
  exact ⟨name', rfl, rfl⟩

theorem VarType.reshapes (type : VarType) : Reshapes VarType.terminals (fun _ => 0) type := by
  intro ys h
  cases type with
  | primitive type span =>
    obtain ⟨span', ys₁, rfl, ha⟩ := h.keyword
    obtain rfl := ha.eq_nil
    exact ⟨.primitive type span', rfl, rfl⟩
  | object name =>
    obtain ⟨name', rfl, -⟩ := name.reshapes _ h
    exact ⟨.object name', rfl, rfl⟩

theorem ReturnType.reshapes (type : ReturnType) :
    Reshapes ReturnType.terminals (fun _ => 0) type := by
  intro ys h
  cases type with
  | void span =>
    obtain ⟨span', ys₁, rfl, ha⟩ := h.keyword
    obtain rfl := ha.eq_nil
    exact ⟨.void span', rfl, rfl⟩
  | value type =>
    obtain ⟨type', rfl, -⟩ := type.reshapes _ h
    exact ⟨.value type', rfl, rfl⟩

theorem ClassVarDec.reshapes (dec : ClassVarDec) :
    Reshapes ClassVarDec.terminals (fun _ => 0) dec := by
  intro ys h
  obtain ⟨keyword', ys₁, rfl, ha⟩ := h.keyword
  obtain ⟨ys₂, ys₃, rfl, hb, hc⟩ := ha.split
  obtain ⟨type', rfl, -⟩ := dec.type.reshapes _ hb
  obtain ⟨ys₄, semicolon', rfl, hd⟩ := hc.marked
  obtain ⟨names', rfl, -⟩ := Reshapes.separated Ident.reshapes dec.names _ hd
  exact ⟨⟨dec.kind, keyword', type', names', semicolon'⟩, rfl, rfl⟩

theorem VarDec.reshapes (dec : VarDec) : Reshapes VarDec.terminals (fun _ => 0) dec := by
  intro ys h
  obtain ⟨keyword', ys₁, rfl, ha⟩ := h.keyword
  obtain ⟨ys₂, ys₃, rfl, hb, hc⟩ := ha.split
  obtain ⟨type', rfl, -⟩ := dec.type.reshapes _ hb
  obtain ⟨ys₄, semicolon', rfl, hd⟩ := hc.marked
  obtain ⟨names', rfl, -⟩ := Reshapes.separated Ident.reshapes dec.names _ hd
  exact ⟨⟨keyword', type', names', semicolon'⟩, rfl, rfl⟩

theorem Param.reshapes (param : Param) : Reshapes Param.terminals (fun _ => 0) param := by
  intro ys h
  obtain ⟨ys₁, ys₂, rfl, ha, hb⟩ := h.split
  obtain ⟨type', rfl, -⟩ := param.type.reshapes _ ha
  obtain ⟨name', rfl, -⟩ := param.name.reshapes _ hb
  exact ⟨⟨type', name'⟩, rfl, rfl⟩

theorem paramTerminals_reshapes (params : Option (Separated Param)) :
    Reshapes paramTerminals (fun _ => 0) params := by
  intro ys h
  cases params with
  | none =>
    obtain rfl := h.eq_nil
    exact ⟨none, rfl, rfl⟩
  | some xs =>
    obtain ⟨xs', rfl, -⟩ := Reshapes.separated Param.reshapes xs _ h
    exact ⟨some xs', rfl, rfl⟩

theorem Body.reshapes (body : Body) :
    Reshapes Body.terminals (fun b => b.statements.innerDepth) body := by
  intro ys h
  obtain ⟨left', ys₁, rfl, ha⟩ := h.symbol
  obtain ⟨ys₂, ys₃, rfl, hb, hc⟩ := ha.split
  obtain ⟨vars', rfl, -⟩ := Reshapes.flatMap (fun dec _ => dec.reshapes) _ hb
  obtain ⟨ys₄, right', rfl, hd⟩ := hc.marked
  obtain ⟨statements', rfl, hstatements⟩ := body.statements.reshapes _ hd
  exact ⟨⟨left', vars', statements', right'⟩, rfl, hstatements⟩

theorem Subroutine.reshapes (sub : Subroutine) :
    Reshapes Subroutine.terminals Subroutine.depth sub := by
  intro ys h
  obtain ⟨keyword', ys₁, rfl, ha⟩ := h.keyword
  obtain ⟨ys₂, ys₃, rfl, hb, hc⟩ := ha.split
  obtain ⟨returns', rfl, -⟩ := sub.returns.reshapes _ hb
  obtain ⟨name', ys₄, rfl, hd⟩ := hc.ident
  obtain ⟨left', ys₅, rfl, he⟩ := hd.symbol
  obtain ⟨ys₆, ys₇, rfl, hf, hg⟩ := he.split
  obtain ⟨params', rfl, -⟩ := paramTerminals_reshapes sub.params _ hf
  obtain ⟨right', ys₈, rfl, hi⟩ := hg.symbol
  obtain ⟨body', rfl, hbody⟩ := sub.body.reshapes _ hi
  exact ⟨⟨sub.kind, keyword', returns', name', left', params', right', body'⟩, rfl,
    congrArg (· + 1) hbody⟩

/-- From terminals of the same kinds as those of a class a class of the same depth can be built. -/
theorem ClassDecl.reshapes (decl : ClassDecl) :
    Reshapes ClassDecl.terminals ClassDecl.depth decl := by
  intro ys h
  obtain ⟨keyword', ys₁, rfl, ha⟩ := h.keyword
  obtain ⟨name', ys₂, rfl, hb⟩ := ha.ident
  obtain ⟨left', ys₃, rfl, hc⟩ := hb.symbol
  obtain ⟨ys₄, ys₅, rfl, hd, he⟩ := hc.split
  obtain ⟨vars', rfl, -⟩ := Reshapes.flatMap (fun dec _ => dec.reshapes) _ hd
  obtain ⟨ys₆, right', rfl, hf⟩ := he.marked
  obtain ⟨subroutines', rfl, hsubs⟩ := Reshapes.flatMap (fun sub _ => sub.reshapes) _ hf
  exact ⟨⟨keyword', name', left', vars', subroutines', right'⟩, rfl,
    congrArg (List.foldr max 0) hsubs⟩

end Jack
