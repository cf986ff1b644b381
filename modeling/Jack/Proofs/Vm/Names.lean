import Jack.Proofs.Vm.Slots

/-!
The names in compiled code. Each of them is the name of a class, a dot, and the name of a
subroutine, and both of these are words of the source or of the library. So there is no blank and no
line feed in a name.
-/

namespace Jack

/-- A text of letters, digits and underscores, as the names of a source are. -/
def IsWord (name : String) : Prop := name ≠ "" ∧ ∀ c ∈ name.toList, isWordChar c = true

-- There are finitely many characters, but only those of the name are to be tried.
instance : DecidablePred IsWord := fun name =>
  @instDecidableAnd (name ≠ "") _ _ (List.decidableBAll _ name.toList)

def IsQualified (name : String) : Prop :=
  ∃ className sub, IsWord className ∧ IsWord sub ∧ name = qualifiedName className sub

namespace Instr

/-- The subroutine that an instruction names. -/
def name? : Instr → Option String
  | function name _ | call name _ => some name
  | _ => none

def Qualified (i : Instr) : Prop := ∀ name ∈ i.name?, IsQualified name

/-- The name is not empty, and there is no blank and no line feed in it. -/
def Named (i : Instr) : Prop :=
  ∀ name ∈ i.name?, name ≠ "" ∧ ' ' ∉ name.toList ∧ '\n' ∉ name.toList

instance : DecidablePred Named := fun i =>
  inferInstanceAs (Decidable (∀ name ∈ i.name?,
    name ≠ "" ∧ ' ' ∉ name.toList ∧ '\n' ∉ name.toList))

theorem Qualified.named {i : Instr} (h : i.Qualified) : i.Named := by
  intro name hname
  obtain ⟨className, sub, hclass, hsub, rfl⟩ := h name hname
  have hchars : ∀ c ∈ (qualifiedName className sub).toList, isWordChar c = true ∨ c = '.' := by
    intro c hc
    simp only [qualifiedName, String.toList_append, List.mem_append] at hc
    rcases hc with (hc | hc) | hc
    · exact .inl (hclass.2 c hc)
    · exact .inr (by simpa using hc)
    · exact .inl (hsub.2 c hc)
  refine ⟨?_, fun hmem => ?_, fun hmem => ?_⟩
  · simp [qualifiedName]
  · rcases hchars _ hmem with hword | hdot
    · exact absurd hword (by decide)
    · exact absurd hdot (by decide)
  · rcases hchars _ hmem with hword | hdot
    · exact absurd hword (by decide)
    · exact absurd hdot (by decide)

section

variable {segment : Segment} {k : Nat} {o : ArithOp} {l : Label}

@[simp] theorem qualified_push : (push segment k).Qualified := by simp [Qualified, name?]

@[simp] theorem qualified_pop : (pop segment k).Qualified := by simp [Qualified, name?]

@[simp] theorem qualified_op : (op o).Qualified := by simp [Qualified, name?]

@[simp] theorem qualified_label : (label l).Qualified := by simp [Qualified, name?]

@[simp] theorem qualified_goto : (goto l).Qualified := by simp [Qualified, name?]

@[simp] theorem qualified_ifGoto : (ifGoto l).Qualified := by simp [Qualified, name?]

@[simp] theorem qualified_ret : ret.Qualified := by simp [Qualified, name?]

@[simp] theorem qualified_call {name : String} : (call name k).Qualified ↔ IsQualified name := by
  simp [Qualified, name?]

@[simp] theorem qualified_function {name : String} :
    (function name k).Qualified ↔ IsQualified name := by
  simp [Qualified, name?]

end

end Instr

/-- If the terminal is a name, it is a word. -/
def Terminal.NamesWord : Terminal → Prop
  | .identifier name _ => IsWord name
  | _ => True

section

variable {span : Span}

@[simp] theorem namesWord_symbol {s : Symbol} : (Terminal.symbol s span).NamesWord := trivial

@[simp] theorem namesWord_keyword {k : Keyword} : (Terminal.keyword k span).NamesWord := trivial

@[simp] theorem namesWord_ident {name : Ident} : name.terminal.NamesWord ↔ IsWord name.name :=
  Iff.rfl

end

theorem namesWord_of_parseSource {unit source : String} {decl : ClassDecl}
    (h : parseSource unit source = .ok decl) : ∀ x ∈ decl.terminals, x.NamesWord := by
  intro x hx
  cases x with
  | identifier name span =>
    obtain ⟨⟨c, rest, hname, -⟩, hword, -⟩ := spells_of_mem_terminals h hx
    refine ⟨?_, hword⟩
    rintro rfl
    simp at hname
  | keyword | symbol | integer | string => trivial

/-! ### Expressions and statements -/

/-- The library has the subroutines that stand for operators and constants. -/
theorem isQualified_library {name : String} (h : name ∈ ["Math.multiply", "Math.divide",
    "String.new", "String.appendChar", "Memory.alloc"]) : IsQualified name := by
  simp only [List.mem_cons, List.not_mem_nil, or_false] at h
  rcases h with rfl | rfl | rfl | rfl | rfl
  · exact ⟨"Math", "multiply", by decide, by decide, by decide⟩
  · exact ⟨"Math", "divide", by decide, by decide, by decide⟩
  · exact ⟨"String", "new", by decide, by decide, by decide⟩
  · exact ⟨"String", "appendChar", by decide, by decide, by decide⟩
  · exact ⟨"Memory", "alloc", by decide, by decide, by decide⟩

/-- The class and the types of variables are words. -/
structure Context.TypesWords (ctx : Context) : Prop where
  className : IsWord ctx.scope.className
  type : ∀ (name : String) (v : Variable), ctx.scope.lookup name = some v → IsWord v.type

namespace Code

variable {ctx : Context}

theorem push_qualified (name : Ident) : (push ctx name).Qualified := by
  rw [push]
  cases ctx.scope.lookup name.name <;> simp [Variable.push]

theorem pop_qualified (name : Ident) : (pop ctx name).Qualified := by
  rw [pop]
  cases ctx.scope.lookup name.name <;> simp [Variable.pop]

theorem this_qualified : ctx.this.Qualified := by
  rw [Context.this]
  split <;> simp

theorem binaryOp_qualified (op : BinaryOp) : op.instr.Qualified := by
  cases op <;> simp [BinaryOp.instr, isQualified_library]

theorem unaryOp_qualified (op : UnaryOp) : op.instr.Qualified := by
  cases op <;> simp [UnaryOp.instr]

theorem string_qualified (value : String) : ∀ i ∈ string value, i.Qualified := by
  have hcharacters : ∀ i ∈ characters value.toList, i.Qualified := by
    intro i hi
    obtain ⟨c, -, hi⟩ := List.mem_flatMap.1 hi
    simp only [List.mem_cons, List.not_mem_nil, or_false] at hi
    rcases hi with rfl | rfl
    · simp
    · simp [isQualified_library]
  simpa [string, isQualified_library] using hcharacters

theorem named_qualified (value : NamedConstant) : ∀ i ∈ named ctx value, i.Qualified := by
  cases value <;> simp [named, this_qualified]

theorem receiver_qualified (recv : Option (Ident × Span)) :
    ∀ i ∈ (receiver ctx recv).2.2, i.Qualified := by
  cases recv with
  | none => simp [receiver, this_qualified]
  | some object => cases hv : ctx.scope.lookup object.1.name <;> simp [receiver, hv, Variable.push]

theorem receiver_isWord (hctx : ctx.TypesWords) {recv : Option (Ident × Span)}
    (h : ∀ object ∈ recv, IsWord object.1.name) : IsWord (receiver ctx recv).1 := by
  cases recv with
  | none => exact hctx.className
  | some object =>
    cases hv : ctx.scope.lookup object.1.name with
    | none => simpa [receiver, hv] using h object rfl
    | some v => simpa [receiver, hv] using hctx.type object.1.name v hv

mutual

theorem expr_qualified (hctx : ctx.TypesWords) : ∀ e : Expr, (∀ x ∈ e.terminals, x.NamesWord) →
    ∀ i ∈ expr ctx e, i.Qualified
  | .mk head tail, h => by
    simp only [Expr.terminals, List.forall_mem_append] at h
    simp only [expr, List.forall_mem_append]
    exact ⟨term_qualified hctx head h.1, opTerms_qualified hctx tail h.2⟩

theorem opTerms_qualified (hctx : ctx.TypesWords) : ∀ xs : OpTerms,
    (∀ x ∈ xs.terminals, x.NamesWord) → ∀ i ∈ opTerms ctx xs, i.Qualified
  | .nil, _ => by simp [opTerms]
  | .cons op _ t rest, h => by
    simp only [OpTerms.terminals, List.forall_mem_cons, List.forall_mem_append] at h
    simp only [opTerms, List.forall_mem_append, List.forall_mem_cons]
    exact ⟨term_qualified hctx t h.2.1, binaryOp_qualified op, opTerms_qualified hctx rest h.2.2⟩

theorem term_qualified (hctx : ctx.TypesWords) : ∀ t : Term, (∀ x ∈ t.terminals, x.NamesWord) →
    ∀ i ∈ term ctx t, i.Qualified
  | .integer _ _, _ => by simp [term]
  | .string value _, _ => string_qualified value
  | .named value _, _ => named_qualified value
  | .paren _ e _, h => by
    simp only [Term.terminals, List.forall_mem_cons, List.forall_mem_append] at h
    exact expr_qualified hctx e h.2.1
  | .unary op _ t, h => by
    simp only [Term.terminals, List.forall_mem_cons] at h
    simp only [term, List.forall_mem_append, List.forall_mem_singleton]
    exact ⟨term_qualified hctx t h.2, unaryOp_qualified op⟩
  | .var name, _ => by simp [term, push_qualified]
  | .element name index, h => by
    simp only [Term.terminals, List.forall_mem_cons] at h
    have hindex := offset_qualified hctx index h.2
    simp only [term, List.forall_mem_cons, List.forall_mem_append]
    exact ⟨push_qualified name, hindex, by simp⟩
  | .call c, h => call_qualified hctx c h

theorem offset_qualified (hctx : ctx.TypesWords) : ∀ index : Index,
    (∀ x ∈ index.terminals, x.NamesWord) → ∀ i ∈ offset ctx index, i.Qualified
  | .mk _ e _, h => by
    simp only [Index.terminals, List.forall_mem_cons, List.forall_mem_append] at h
    simp only [offset, List.forall_mem_append]
    exact ⟨expr_qualified hctx e h.2.1, by simp⟩

theorem call_qualified (hctx : ctx.TypesWords) : ∀ c : Call, (∀ x ∈ c.terminals, x.NamesWord) →
    ∀ i ∈ call ctx c, i.Qualified
  | .mk recv name _ as _, h => by
    have hnames : (∀ object ∈ recv, IsWord object.1.name) ∧ IsWord name.name ∧
        ∀ x ∈ as.terminals, x.NamesWord := by
      cases recv with
      | none => simp_all [Call.terminals]
      | some object => simp_all [Call.terminals]
    obtain ⟨hrecv, hname, hargs⟩ := hnames
    simp only [call, List.forall_mem_append, List.forall_mem_singleton, Instr.qualified_call]
    exact ⟨⟨receiver_qualified recv, args_qualified hctx as hargs⟩,
      _, _, receiver_isWord hctx hrecv, hname, rfl⟩

theorem args_qualified (hctx : ctx.TypesWords) : ∀ as : Args,
    (∀ x ∈ as.terminals, x.NamesWord) → ∀ i ∈ args ctx as, i.Qualified
  | .none, _ => by simp [args]
  | .some head tail, h => by
    simp only [Args.terminals, List.forall_mem_append] at h
    simp only [args, List.forall_mem_append]
    exact ⟨expr_qualified hctx head h.1, moreArgs_qualified hctx tail h.2⟩

theorem moreArgs_qualified (hctx : ctx.TypesWords) : ∀ as : MoreArgs,
    (∀ x ∈ as.terminals, x.NamesWord) → ∀ i ∈ moreArgs ctx as, i.Qualified
  | .nil, _ => by simp [moreArgs]
  | .cons _ e rest, h => by
    simp only [MoreArgs.terminals, List.forall_mem_cons, List.forall_mem_append] at h
    simp only [moreArgs, List.forall_mem_append]
    exact ⟨expr_qualified hctx e h.2.1, moreArgs_qualified hctx rest h.2.2⟩

end

mutual

theorem stmt_qualified (hctx : ctx.TypesWords) (n : Nat) : ∀ s : Stmt,
    (∀ x ∈ s.terminals, x.NamesWord) → ∀ i ∈ stmt ctx n s, i.Qualified
  | .assign _ target none _ value _, h => by
    simp only [Stmt.terminals, List.forall_mem_cons, List.forall_mem_append] at h
    simp only [stmt, List.forall_mem_append, List.forall_mem_singleton]
    exact ⟨expr_qualified hctx value h.2.2.2.2.1, pop_qualified target⟩
  | .assign _ target (some index) _ value _, h => by
    simp only [Stmt.terminals, List.forall_mem_cons, List.forall_mem_append] at h
    have hindex := offset_qualified hctx index h.2.2.1
    have hvalue := expr_qualified hctx value h.2.2.2.2.1
    simp only [stmt, List.forall_mem_cons, List.forall_mem_append]
    exact ⟨push_qualified target, hindex, by simp, hvalue, by simp⟩
  | .branch _ _ condition _ yes no, h => by
    simp only [Stmt.terminals, List.forall_mem_cons, List.forall_mem_append] at h
    have hcondition := expr_qualified hctx condition h.2.2.1
    have hyes := block_qualified hctx (n + 1 + no.labelCount) yes h.2.2.2.2.1
    have hno := otherwise_qualified hctx (n + 1) no h.2.2.2.2.2
    simp only [stmt, List.forall_mem_cons, List.forall_mem_append]
    exact ⟨hcondition, by simp, hno, by simp, by simp, hyes, by simp⟩
  | .loop _ _ condition _ body, h => by
    simp only [Stmt.terminals, List.forall_mem_cons, List.forall_mem_append] at h
    have hcondition := expr_qualified hctx condition h.2.2.1
    have hbody := block_qualified hctx (n + 1) body h.2.2.2.2
    simp only [stmt, List.forall_mem_cons, List.forall_mem_append]
    exact ⟨by simp, hcondition, by simp, by simp, by simp, hbody, by simp⟩
  | .perform _ c _, h => by
    simp only [Stmt.terminals, List.forall_mem_cons, List.forall_mem_append] at h
    simp only [stmt, List.forall_mem_append]
    exact ⟨call_qualified hctx c h.2.1, by simp⟩
  | .finish _ none _, _ => by simp [stmt]
  | .finish _ (some value) _, h => by
    simp only [Stmt.terminals, List.forall_mem_cons, List.forall_mem_append] at h
    simp only [stmt, List.forall_mem_append]
    exact ⟨expr_qualified hctx value h.2.1, by simp⟩

theorem otherwise_qualified (hctx : ctx.TypesWords) (n : Nat) : ∀ no : Otherwise,
    (∀ x ∈ no.terminals, x.NamesWord) → ∀ i ∈ otherwise ctx n no, i.Qualified
  | .none, _ => by simp [otherwise]
  | .some _ b, h => by
    simp only [Otherwise.terminals, List.forall_mem_cons] at h
    exact block_qualified hctx n b h.2

theorem block_qualified (hctx : ctx.TypesWords) (n : Nat) : ∀ b : Block,
    (∀ x ∈ b.terminals, x.NamesWord) → ∀ i ∈ block ctx n b, i.Qualified
  | .mk _ body _, h => by
    simp only [Block.terminals, List.forall_mem_cons, List.forall_mem_append] at h
    exact stmts_qualified hctx n body h.2.1

theorem stmts_qualified (hctx : ctx.TypesWords) (n : Nat) : ∀ body : Stmts,
    (∀ x ∈ body.terminals, x.NamesWord) → ∀ i ∈ stmts ctx n body, i.Qualified
  | .nil, _ => by simp [stmts]
  | .cons s rest, h => by
    simp only [Stmts.terminals, List.forall_mem_append] at h
    simp only [stmts, List.forall_mem_append]
    exact ⟨stmt_qualified hctx n s h.1, stmts_qualified hctx _ rest h.2⟩

end

end Code

/-! ### Subroutines -/

theorem VarType.name_isWord {type : VarType} (h : ∀ x ∈ type.terminals, x.NamesWord) :
    IsWord type.name := by
  cases type with
  | primitive type span =>
    rw [name]
    cases type <;> decide
  | object ident =>
    rw [name]
    simpa [terminals] using h

theorem isWord_of_mem_typed {type : VarType} {names : Separated Ident} {entry : String × String}
    (h : ∀ x ∈ type.terminals, x.NamesWord) (hmem : entry ∈ typed type names) :
    IsWord entry.2 := by
  obtain ⟨ident, -, rfl⟩ := List.mem_map.1 hmem
  exact VarType.name_isWord h

theorem ClassDecl.isWord_of_mem_variables {decl : ClassDecl} {kind : ClassVarKind}
    {entry : String × String} (h : ∀ x ∈ decl.terminals, x.NamesWord)
    (hmem : entry ∈ decl.variables kind) : IsWord entry.2 := by
  obtain ⟨dec, hdec, hentry⟩ := List.mem_flatMap.1 hmem
  refine isWord_of_mem_typed (fun x hx => h x ?_) hentry
  have hvars : x ∈ decl.vars.flatMap ClassVarDec.terminals :=
    List.mem_flatMap.2 ⟨dec, (List.mem_filter.1 hdec).1, by simp [ClassVarDec.terminals, hx]⟩
  simp [terminals, hvars]

namespace Subroutine

variable {sub : Subroutine} {entry : String × String}

theorem isWord_of_mem_locals (h : ∀ x ∈ sub.terminals, x.NamesWord) (hmem : entry ∈ sub.locals) :
    IsWord entry.2 := by
  obtain ⟨dec, hdec, hentry⟩ := List.mem_flatMap.1 hmem
  refine isWord_of_mem_typed (fun x hx => h x ?_) hentry
  have hvars : x ∈ sub.body.vars.flatMap VarDec.terminals :=
    List.mem_flatMap.2 ⟨dec, hdec, by simp [VarDec.terminals, hx]⟩
  simp [terminals, Body.terminals, hvars]

theorem isWord_of_mem_parameters (h : ∀ x ∈ sub.terminals, x.NamesWord)
    (hmem : entry ∈ sub.parameters) : IsWord entry.2 := by
  obtain ⟨p, hp, rfl⟩ := List.mem_map.1 hmem
  refine VarType.name_isWord fun x hx => h x ?_
  have hparams : x ∈ paramTerminals sub.params := by
    cases hsome : sub.params with
    | none => simp [hsome] at hp
    | some params =>
      rw [hsome] at hp
      exact Separated.mem_terminals hp (by simp [Param.terminals, hx])
  simp [terminals, hparams]

end Subroutine

/-- The types of the variables of a subroutine are words. -/
theorem isWord_of_mem_declaredIn {decl : ClassDecl} {sub : Subroutine}
    (h : ∀ x ∈ decl.terminals, x.NamesWord) (hsub : sub ∈ decl.subroutines) {kind : VarKind}
    {entry : String × String} (hmem : entry ∈ declaredIn decl sub kind) : IsWord entry.2 := by
  have hsubs : ∀ x ∈ sub.terminals, x.NamesWord := fun x hx =>
    h x (ClassDecl.terminals_subroutine_subset hsub hx)
  cases kind with
  | static => exact ClassDecl.isWord_of_mem_variables h hmem
  | field => exact ClassDecl.isWord_of_mem_variables h hmem
  | localVar => exact Subroutine.isWord_of_mem_locals hsubs hmem
  | argument =>
    rcases List.mem_append.1 hmem with hthis | hparam
    · split at hthis
      · obtain rfl := List.mem_singleton.1 hthis
        exact h decl.name.terminal (by simp [ClassDecl.terminals])
      · simp at hthis
    · exact Subroutine.isWord_of_mem_parameters hsubs hparam

open Generator in
/-- The names in the code of a source are those of subroutines of classes. -/
theorem compileSource_qualified {unit source : String} {code : List Instr}
    (h : compileSource unit source = .ok code) : ∀ i ∈ code, i.Qualified := by
  obtain ⟨decl, scope, stages, g, hparse, hcompiled, rfl, -⟩ := exists_stages_of_compileSource h
  have hwords := namesWord_of_parseSource hparse
  rw [hcompiled.output_eq]
  intro i hi
  obtain ⟨block, hblock, hi⟩ := List.mem_flatten.1 hi
  obtain ⟨stage, hstage, rfl⟩ := List.mem_map.1 hblock
  have hsub : stage.sub ∈ decl.subroutines := by
    rw [← hcompiled.subs]
    exact List.mem_map_of_mem hstage
  have hfor := hcompiled.ctx_for hstage
  have hname : IsWord decl.name.name := hwords decl.name.terminal (by simp [ClassDecl.terminals])
  have hsubs : ∀ x ∈ stage.sub.terminals, x.NamesWord := fun x hx =>
    hwords x (ClassDecl.terminals_subroutine_subset hsub hx)
  have hctx : stage.ctx.TypesWords := by
    refine ⟨hfor.className ▸ hname, fun name v hv => ?_⟩
    obtain ⟨-, hhas, -⟩ := hfor.lists.lookup_eq_some_iff.1 hv
    exact isWord_of_mem_declaredIn hwords hsub (List.mem_of_getElem? hhas)
  have hprologue : ∀ i ∈ prologue stage.sub.kind stage.after.scope, i.Qualified := by
    cases stage.sub.kind <;> simp [prologue, isQualified_library]
  have hstmts := Code.stmts_qualified hctx stage.before.output.labels stage.sub.body.statements
    fun x hx => hsubs x (stage.sub.terminals_statements_subset hx)
  rw [stage.code_eq, Stage.body, List.mem_cons, List.mem_append] at hi
  rcases hi with rfl | hi | hi
  · rw [Instr.qualified_function]
    refine ⟨_, _, hctx.className, ?_, rfl⟩
    exact hsubs stage.sub.name.terminal (by simp [Subroutine.terminals])
  · exact hprologue i hi
  · exact hstmts i hi

end Jack
