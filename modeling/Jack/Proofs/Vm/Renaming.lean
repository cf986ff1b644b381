import Jack.Proofs.Vm.Relocation
import Jack.Proofs.Vm.Validity
import Mathlib.Logic.Embedding.Basic

/-!
The code of a class does not depend on the names of its variables. When variables get other names,
distinct ones for distinct ones, every occurrence finds the variable that it found before, at the
same place of the same kind. Only a receiver that is no variable shows its name in the code, as that
of a class, and has to keep it.
-/

namespace Jack

/-! ### Trees with other names -/

section

variable (r : String → String)

def Ident.rename (name : Ident) : Ident := ⟨r name.name, name.span⟩

mutual

/-- Variables and receivers get other names, subroutines do not. -/
def Expr.rename : Expr → Expr
  | .mk head tail => .mk head.rename tail.rename

def OpTerms.rename : OpTerms → OpTerms
  | .nil => .nil
  | .cons op opSpan term rest => .cons op opSpan term.rename rest.rename

def Term.rename : Term → Term
  | .integer value span => .integer value span
  | .string value span => .string value span
  | .named value span => .named value span
  | .paren left expr right => .paren left expr.rename right
  | .unary op opSpan term => .unary op opSpan term.rename
  | .var name => .var (name.rename r)
  | .element name index => .element (name.rename r) index.rename
  | .call call => .call call.rename

def Index.rename : Index → Index
  | .mk left expr right => .mk left expr.rename right

def Call.rename : Call → Call
  | .mk receiver name left args right =>
    .mk (receiver.map fun x => (x.1.rename r, x.2)) name left args.rename right

def Args.rename : Args → Args
  | .none => .none
  | .some head tail => .some head.rename tail.rename

def MoreArgs.rename : MoreArgs → MoreArgs
  | .nil => .nil
  | .cons comma arg rest => .cons comma arg.rename rest.rename

end

mutual

def Stmt.rename : Stmt → Stmt
  | .assign keyword target index equal value semicolon =>
    .assign keyword (target.rename r) (index.map (Index.rename r)) equal (value.rename r) semicolon
  | .branch keyword left condition right yes no =>
    .branch keyword left (condition.rename r) right yes.rename no.rename
  | .loop keyword left condition right body =>
    .loop keyword left (condition.rename r) right body.rename
  | .perform keyword call semicolon => .perform keyword (call.rename r) semicolon
  | .finish keyword value semicolon => .finish keyword (value.map (Expr.rename r)) semicolon

def Otherwise.rename : Otherwise → Otherwise
  | .none => .none
  | .some keyword block => .some keyword block.rename

def Block.rename : Block → Block
  | .mk left body right => .mk left body.rename right

def Stmts.rename : Stmts → Stmts
  | .nil => .nil
  | .cons stmt rest => .cons stmt.rename rest.rename

end

def Separated.map {α : Type} (item : α → α) (xs : Separated α) : Separated α :=
  ⟨item xs.head, xs.tail.map fun x => (x.1, item x.2)⟩

def ClassVarDec.rename (dec : ClassVarDec) : ClassVarDec :=
  { dec with names := dec.names.map (Ident.rename r) }

def VarDec.rename (dec : VarDec) : VarDec :=
  { dec with names := dec.names.map (Ident.rename r) }

def Param.rename (param : Param) : Param := { param with name := param.name.rename r }

def Body.rename (body : Body) : Body :=
  { body with vars := body.vars.map (VarDec.rename r), statements := body.statements.rename r }

def Subroutine.rename (sub : Subroutine) : Subroutine :=
  { sub with
    params := sub.params.map (Separated.map (Param.rename r))
    body := sub.body.rename r }

def ClassDecl.rename (decl : ClassDecl) : ClassDecl :=
  { decl with
    vars := decl.vars.map (ClassVarDec.rename r)
    subroutines := decl.subroutines.map (Subroutine.rename r) }

/-! ### Scopes with other names -/

def Variable.rename (v : Variable) : Variable := { v with name := r v.name }

/-- The second scope has the variables of the first one under their other names. -/
structure Scope.Renames (scope scope' : Scope) : Prop where
  className : scope'.className = scope.className
  counts : scope'.counts = scope.counts
  varsAt : ∀ (level : Level) (name : String),
    (scope'.varsAt level)[r name]? = (scope.varsAt level)[name]?.map (Variable.rename r)

structure Context.Renames (ctx ctx' : Context) : Prop where
  kind : ctx'.kind = ctx.kind
  scope : ctx.scope.Renames r ctx'.scope

/-- A fault that is about a variable, under its other name. -/
def CompileFault.rename : CompileFault → CompileFault
  | undefined name => undefined (r name)
  | duplicate name existing => duplicate (r name) existing
  | unsupported reason => unsupported reason

def Stop.rename (stop : Stop) : Stop :=
  ⟨⟨stop.error.fault.rename r, stop.error.span⟩, stop.output⟩

end

variable {r : String → String}

theorem Separated.toList_map {α : Type} (item : α → α) (xs : Separated α) :
    (xs.map item).toList = xs.toList.map item := by
  simp [Separated.map, Separated.toList, Function.comp_def]

@[simp] theorem MoreArgs.lengthFrom_rename (as : MoreArgs) (n : Nat) :
    (as.rename r).lengthFrom n = as.lengthFrom n := by
  induction n, as using MoreArgs.lengthFrom.induct with
  | case1 n => rfl
  | case2 n comma arg rest ih => exact ih

@[simp] theorem Args.length_rename (as : Args) : (as.rename r).length = as.length := by
  cases as with
  | none => rfl
  | some head tail => exact tail.lengthFrom_rename 1

theorem Scope.empty_renames (r : String → String) (className : String) :
    (empty className).Renames r (.empty className) := by
  refine ⟨rfl, rfl, fun level name => ?_⟩
  cases level <;> simp [empty, varsAt]

namespace Scope.Renames

variable {scope scope' : Scope} (h : scope.Renames r scope') {name type : String} {kind : VarKind}

include h

theorem lookup (name : String) :
    scope'.lookup (r name) = (scope.lookup name).map (Variable.rename r) := by
  have hsub : scope'.subroutineVars[r name]? =
      scope.subroutineVars[name]?.map (Variable.rename r) := h.varsAt .subroutineLevel name
  have hclass : scope'.classVars[r name]? = scope.classVars[name]?.map (Variable.rename r) :=
    h.varsAt .classLevel name
  simp only [Scope.lookup, hsub, hclass]
  cases scope.subroutineVars[name]? <;> rfl

theorem countOf (kind : VarKind) : scope'.countOf kind = scope.countOf kind := by
  rw [Scope.countOf, h.counts, Scope.countOf]

theorem startSubroutine : scope.startSubroutine.Renames r scope'.startSubroutine := by
  refine ⟨h.className, by simp [Scope.startSubroutine, h.counts], fun level name => ?_⟩
  cases level with
  | classLevel => exact h.varsAt .classLevel name
  | subroutineLevel => simp [Scope.startSubroutine, Scope.varsAt]

theorem insert (hinj : Function.Injective r) (v : Variable) :
    (scope.insert v).Renames r (scope'.insert (v.rename r)) := by
  have hkind : (v.rename r).kind = v.kind := rfl
  have hname : (v.rename r).name = r v.name := rfl
  refine ⟨?_, ?_, fun level name => ?_⟩
  · cases hlevel : v.kind.level <;> simp [Scope.insert, hkind, hlevel, h.className]
  · cases hlevel : v.kind.level <;> simp [Scope.insert, hkind, hlevel, h.counts]
  · rw [Scope.varsAt_insert, Scope.varsAt_insert, hkind, hname]
    split
    · simp only [Std.HashMap.getElem?_insert, beq_iff_eq, hinj.eq_iff, h.varsAt]
      split <;> rfl
    · exact h.varsAt level name

theorem obstacle?_eq_none (hfree : scope.obstacle? name kind = none) :
    scope'.obstacle? (r name) kind = none := by
  simp only [Scope.obstacle?, h.varsAt, h.countOf] at hfree ⊢
  cases hv : (scope.varsAt kind.level)[name]? with
  | some v => simp [hv] at hfree
  | none => simpa [hv] using hfree

theorem define (hinj : Function.Injective r) {index : Nat} {after : Scope}
    (hdefine : scope.define name type kind = (.ok index, after)) :
    ∃ after', scope'.define (r name) type kind = (.ok index, after') ∧ after.Renames r after' := by
  obtain ⟨e, -, heq⟩ | ⟨hfree, heq⟩ := scope.define_eq name type kind
  · simp [heq] at hdefine
  · rw [heq, Prod.mk.injEq, Except.ok.injEq] at hdefine
    obtain ⟨rfl, rfl⟩ := hdefine
    obtain ⟨e, hsome, -⟩ | ⟨-, heq'⟩ := scope'.define_eq (r name) type kind
    · simp [h.obstacle?_eq_none hfree] at hsome
    · rw [h.countOf] at heq'
      exact ⟨_, heq', h.insert hinj ⟨name, type, kind, scope.countOf kind⟩⟩

end Scope.Renames

/-! ### Expressions and statements -/

namespace Context

variable {ctx ctx' : Context}

/-- Receivers that are no variables keep their names. -/
def Keeps (r : String → String) (ctx : Context) (os : List Occurrence) : Prop :=
  ∀ name, .receiver name ∈ os → ctx.scope.lookup name = none → r name = name

section

variable {os os' : List Occurrence}

@[simp] theorem keeps_append : ctx.Keeps r (os ++ os') ↔ ctx.Keeps r os ∧ ctx.Keeps r os' := by
  simp only [Keeps, List.mem_append, or_imp, forall_and]

theorem Keeps.tail {o : Occurrence} (h : ctx.Keeps r (o :: os)) : ctx.Keeps r os :=
  fun name hname => h name (List.mem_cons_of_mem o hname)

end

namespace Renames

variable (h : ctx.Renames r ctx')

include h

theorem this_eq : ctx'.this = ctx.this := by
  simp only [this, h.kind]

theorem named_eq (value : NamedConstant) (out : Output) :
    ctx'.named value out = ctx.named value out := by
  cases value <;> simp [named, h.this_eq]

theorem resolve (name : Ident) (out : Output) :
    ctx'.resolve (name.rename r) out =
      Variable.rename r <$> (ctx.resolve name out).mapError (Stop.rename r) := by
  simp only [Context.resolve, Ident.rename, h.scope.lookup]
  cases ctx.scope.lookup name.name <;> rfl

/-- A receiver that is a variable is found under its other name, and another one keeps its own. -/
theorem receiver {recv : Option (Ident × Span)} (hkeeps : ctx.Keeps r [receiverOccurrence recv])
    (out : Output) :
    ctx'.receiver (recv.map fun x => (x.1.rename r, x.2)) out = ctx.receiver recv out := by
  cases recv with
  | none => simp [Context.receiver, h.scope.className, h.this_eq]
  | some object =>
    simp only [Option.map_some, Context.receiver, Ident.rename, h.scope.lookup]
    cases hv : ctx.scope.lookup object.1.name with
    | some v => rfl
    | none =>
      have hname : r object.1.name = object.1.name :=
        hkeeps _ (by simp [receiverOccurrence]) hv
      simp [hname]

end Renames

theorem string_rename (value : String) (span : Span) (out : Output) :
    string value span out = (string value span out).mapError (Stop.rename r) := by
  have hcharacters (cs : List Char) (out : Output) :
      characters span cs out = (characters span cs out).mapError (Stop.rename r) := by
    induction cs generalizing out with
    | nil => rfl
    | cons c cs ih =>
      simp only [characters]
      split
      · exact ih _
      · rfl
  simp only [string]
  split
  · exact hcharacters _ _
  · rfl

mutual

theorem expr_rename (h : ctx.Renames r ctx') (e : Expr)
    (hkeeps : ctx.Keeps r e.occurrences) (out : Output) :
    ctx'.expr (e.rename r) out = (ctx.expr e out).mapError (Stop.rename r) := by
  cases e with
  | mk head tail =>
    rw [Expr.occurrences, keeps_append] at hkeeps
    simp only [Expr.rename, expr, mapError_bind, term_rename h head hkeeps.1,
      opTerms_rename h tail hkeeps.2]

theorem opTerms_rename (h : ctx.Renames r ctx') (ts : OpTerms)
    (hkeeps : ctx.Keeps r ts.occurrences) (out : Output) :
    ctx'.opTerms (ts.rename r) out = (ctx.opTerms ts out).mapError (Stop.rename r) := by
  cases ts with
  | nil => rfl
  | cons op span t rest =>
    rw [OpTerms.occurrences, keeps_append, keeps_append] at hkeeps
    simp only [OpTerms.rename, opTerms, mapError_bind, term_rename h t hkeeps.1,
      opTerms_rename h rest hkeeps.2.2]

theorem term_rename (h : ctx.Renames r ctx') (t : Term)
    (hkeeps : ctx.Keeps r t.occurrences) (out : Output) :
    ctx'.term (t.rename r) out = (ctx.term t out).mapError (Stop.rename r) := by
  cases t with
  | integer value span => rfl
  | string value span => exact string_rename value span out
  | named value span => simp only [Term.rename, term, h.named_eq, mapError_ok]
  | paren left e right => exact expr_rename h e hkeeps out
  | unary op span t =>
    simp only [Term.rename, term, mapError_bind, term_rename h t hkeeps, mapError_pure]
  | var name =>
    simp only [Term.rename, term, mapError_bind, h.resolve, bind_map_left, mapError_pure]
    rfl
  | element name index =>
    simp only [Term.rename, term, mapError_bind, h.resolve, bind_map_left,
      offset_rename h index hkeeps.tail, mapError_pure]
    rfl
  | call c => exact call_rename h c hkeeps out

theorem offset_rename (h : ctx.Renames r ctx') (index : Index)
    (hkeeps : ctx.Keeps r index.occurrences) (out : Output) :
    ctx'.offset (index.rename r) out = (ctx.offset index out).mapError (Stop.rename r) := by
  cases index with
  | mk left e right =>
    simp only [Index.rename, offset, mapError_bind, expr_rename h e hkeeps, mapError_pure]

theorem call_rename (h : ctx.Renames r ctx') (c : Call)
    (hkeeps : ctx.Keeps r c.occurrences) (out : Output) :
    ctx'.call (c.rename r) out = (ctx.call c out).mapError (Stop.rename r) := by
  cases c with
  | mk recv name left as right =>
    rw [Call.occurrences, ← List.singleton_append, keeps_append, keeps_append] at hkeeps
    simp only [Call.rename, call, h.receiver hkeeps.1, mapError_bind, args_rename h as hkeeps.2.1,
      Args.length_rename]
    congr 1
    funext out'
    split <;> rfl

theorem args_rename (h : ctx.Renames r ctx') (as : Args)
    (hkeeps : ctx.Keeps r as.occurrences) (out : Output) :
    ctx'.args (as.rename r) out = (ctx.args as out).mapError (Stop.rename r) := by
  cases as with
  | none => rfl
  | some head tail =>
    rw [Args.occurrences, keeps_append] at hkeeps
    simp only [Args.rename, args, mapError_bind, expr_rename h head hkeeps.1,
      moreArgs_rename h tail hkeeps.2]

theorem moreArgs_rename (h : ctx.Renames r ctx') (as : MoreArgs)
    (hkeeps : ctx.Keeps r as.occurrences) (out : Output) :
    ctx'.moreArgs (as.rename r) out = (ctx.moreArgs as out).mapError (Stop.rename r) := by
  cases as with
  | nil => rfl
  | cons comma e rest =>
    rw [MoreArgs.occurrences, keeps_append] at hkeeps
    simp only [MoreArgs.rename, moreArgs, mapError_bind, expr_rename h e hkeeps.1,
      moreArgs_rename h rest hkeeps.2]

end

mutual

theorem stmt_rename (h : ctx.Renames r ctx') (s : Stmt)
    (hkeeps : ctx.Keeps r s.occurrences) (out : Output) :
    ctx'.stmt (s.rename r) out = (ctx.stmt s out).mapError (Stop.rename r) := by
  cases s with
  | assign keyword target index equal value semicolon =>
    cases index with
    | none =>
      rw [Stmt.occurrences, keeps_append] at hkeeps
      simp only [Stmt.rename, Option.map_none, stmt, mapError_bind, h.resolve, bind_map_left,
        expr_rename h value hkeeps.1, mapError_pure]
      rfl
    | some index =>
      rw [Stmt.occurrences] at hkeeps
      have hrest := keeps_append.1 hkeeps.tail
      simp only [Stmt.rename, Option.map_some, stmt, mapError_bind, h.resolve, bind_map_left,
        offset_rename h index hrest.1, expr_rename h value hrest.2, mapError_pure]
      rfl
  | branch keyword left condition right yes no =>
    rw [Stmt.occurrences, keeps_append, keeps_append] at hkeeps
    simp only [Stmt.rename, stmt, mapError_bind, expr_rename h condition hkeeps.1,
      otherwise_rename h no hkeeps.2.1, block_rename h yes hkeeps.2.2, mapError_pure]
  | loop keyword left condition right body =>
    rw [Stmt.occurrences, keeps_append] at hkeeps
    simp only [Stmt.rename, stmt, mapError_bind, expr_rename h condition hkeeps.1,
      block_rename h body hkeeps.2, mapError_pure]
  | perform keyword c semicolon =>
    simp only [Stmt.rename, stmt, mapError_bind, call_rename h c hkeeps, mapError_pure]
  | finish keyword value semicolon =>
    cases value with
    | none => rfl
    | some value =>
      simp only [Stmt.rename, Option.map_some, stmt, mapError_bind, expr_rename h value hkeeps,
        mapError_pure]

theorem otherwise_rename (h : ctx.Renames r ctx') (no : Otherwise)
    (hkeeps : ctx.Keeps r no.occurrences) (out : Output) :
    ctx'.otherwise (no.rename r) out = (ctx.otherwise no out).mapError (Stop.rename r) := by
  cases no with
  | none => rfl
  | some keyword b => exact block_rename h b hkeeps out

theorem block_rename (h : ctx.Renames r ctx') (b : Block)
    (hkeeps : ctx.Keeps r b.occurrences) (out : Output) :
    ctx'.block (b.rename r) out = (ctx.block b out).mapError (Stop.rename r) := by
  cases b with
  | mk left body right => exact stmts_rename h body hkeeps out

theorem stmts_rename (h : ctx.Renames r ctx') (body : Stmts)
    (hkeeps : ctx.Keeps r body.occurrences) (out : Output) :
    ctx'.stmts (body.rename r) out = (ctx.stmts body out).mapError (Stop.rename r) := by
  cases body with
  | nil => rfl
  | cons s rest =>
    rw [Stmts.occurrences, keeps_append] at hkeeps
    simp only [Stmts.rename, stmts, mapError_bind, stmt_rename h s hkeeps.1,
      stmts_rename h rest hkeeps.2]

end

end Context

/-! ### Classes -/

namespace Generator

/-- The second generator has the same output, and its variables under their other names. -/
structure Renames (r : String → String) (g g' : Generator) : Prop where
  scope : g.scope.Renames r g'.scope
  output : g'.output = g.output

/-- What declares variables in the one scope declares them in the other, under their other
names. -/
def Carries (r : String → String) (step step' : Scope → Except (CompileError × Scope) Scope) :
    Prop :=
  ∀ scope scope' after, scope.Renames r scope' → step scope = .ok after →
    ∃ after', step' scope' = .ok after' ∧ after.Renames r after'

namespace Carries

variable {step step' next next' : Scope → Except (CompileError × Scope) Scope}

theorem nil : Carries r .ok .ok := by
  intro scope scope' after h hok
  obtain rfl := Except.ok.inj hok
  exact ⟨scope', rfl, h⟩

theorem append (h : Carries r step step') (hnext : Carries r next next') :
    Carries r (fun scope => step scope >>= next) (fun scope => step' scope >>= next') := by
  intro scope scope' after hscope hok
  obtain ⟨scope₁, hstep, hrest⟩ := bind_eq_ok_iff.1 hok
  obtain ⟨scope₁', hstep', hscope₁⟩ := h scope scope' scope₁ hscope hstep
  obtain ⟨after', hrest', hafter⟩ := hnext scope₁ scope₁' after hscope₁ hrest
  exact ⟨after', bind_eq_ok_iff.2 ⟨scope₁', hstep', hrest'⟩, hafter⟩

end Carries

section

variable (hinj : Function.Injective r)

include hinj

theorem declare_carries (type : String) (kind : VarKind) (names : List Ident) :
    Carries r (declare type kind names) (declare type kind (names.map (Ident.rename r))) := by
  induction names with
  | nil => exact .nil
  | cons name names ih =>
    intro scope scope' after h hok
    rw [declare] at hok
    split at hok
    next hdefine =>
      obtain ⟨scope₁', hdefine', h₁⟩ := h.define hinj hdefine
      obtain ⟨after', hnames, hafter⟩ := ih _ scope₁' after h₁ hok
      refine ⟨after', ?_, hafter⟩
      simpa only [List.map_cons, declare, Ident.rename, hdefine'] using hnames
    · simp at hok

theorem declareClassVars_carries (decs : List ClassVarDec) :
    Carries r (declareClassVars decs) (declareClassVars (decs.map (ClassVarDec.rename r))) := by
  induction decs with
  | nil => exact .nil
  | cons dec decs ih =>
    have hdec := declare_carries hinj dec.type.name dec.kind.varKind dec.names.toList
    rw [← Separated.toList_map] at hdec
    exact hdec.append ih

theorem declareParams_carries (params : List Param) :
    Carries r (declareParams params) (declareParams (params.map (Param.rename r))) := by
  induction params with
  | nil => exact .nil
  | cons p params ih => exact (declare_carries hinj p.type.name .argument [p.name]).append ih

theorem declareVars_carries (decs : List VarDec) :
    Carries r (declareVars decs) (declareVars (decs.map (VarDec.rename r))) := by
  induction decs with
  | nil => exact .nil
  | cons dec decs ih =>
    have hdec := declare_carries hinj dec.type.name .localVar dec.names.toList
    rw [← Separated.toList_map] at hdec
    exact hdec.append ih

/-- The object of a method has a name that no variable can get. -/
theorem declareThis_carries (hthis : r "this" = "this") (sub : Subroutine) :
    Carries r (declareThis sub) (declareThis (sub.rename r)) := by
  intro scope scope' after h hok
  have hkind : (sub.rename r).kind = sub.kind := rfl
  rw [declareThis] at hok ⊢
  rw [hkind, h.className]
  split at hok
  · split at hok
    next hdefine =>
      obtain rfl := Except.ok.inj hok
      obtain ⟨after', hdefine', hafter⟩ := h.define hinj hdefine
      rw [hthis] at hdefine'
      exact ⟨after', by simp only [hdefine'], hafter⟩
    · simp at hok
  · obtain rfl := Except.ok.inj hok
    exact ⟨scope', rfl, h⟩

theorem openScope_carries (hthis : r "this" = "this") (sub : Subroutine) :
    Carries r (openScope sub) (openScope (sub.rename r)) := by
  intro scope scope' after h hok
  have hparams : (sub.rename r).params.elim [] Separated.toList =
      (sub.params.elim [] Separated.toList).map (Param.rename r) := by
    cases hsome : sub.params <;> simp [Subroutine.rename, hsome, Separated.toList_map]
  have hlocals := (declareParams_carries hinj (sub.params.elim [] Separated.toList)).append
    (declareVars_carries hinj sub.body.vars)
  have hall := (declareThis_carries hinj hthis sub).append hlocals
  rw [openScope, hparams]
  exact hall _ _ after h.startSubroutine hok

end

/-- The receivers of a subroutine that are no variables in it keep their names. -/
def Keeps (r : String → String) (decl : ClassDecl) (sub : Subroutine) : Prop :=
  ∀ name, .receiver name ∈ sub.occurrences → name ∉ decl.namesIn sub → r name = name

theorem Keeps.inContext {decl : ClassDecl} {sub : Subroutine} {g : Generator} {scope : Scope}
    (h : Keeps r decl sub) (hthis : r "this" = "this") (hclass : g.HasClass decl)
    (hopen : openScope sub g.scope = .ok scope) :
    Context.Keeps r ⟨scope, sub.kind⟩ sub.body.statements.occurrences := by
  intro name hname hnone
  -- A method has `this` in its scope, which is not among the names that it declares.
  by_cases heq : name = "this"
  · rwa [heq]
  · refine h name (List.mem_append_right _ hname) fun hmem => ?_
    have hsees := openScope_sees hopen hclass heq
    simp [Context.sees, hnone, hmem] at hsees

theorem subroutine_rename (hinj : Function.Injective r) (hthis : r "this" = "this")
    {decl : ClassDecl} {sub : Subroutine} {g g' g₁ : Generator} (h : g.Renames r g')
    (hclass : g.HasClass decl) (hkeeps : Keeps r decl sub) (hok : subroutine sub g = .ok g₁) :
    ∃ g₁', subroutine (sub.rename r) g' = .ok g₁' ∧ g₁.Renames r g₁' := by
  obtain ⟨hopen, hstmts⟩ := subroutine_eq_ok hok
  obtain ⟨scope', hopen', hscope⟩ := openScope_carries hinj hthis sub _ _ _ h.scope hopen
  have hheader : header (sub.rename r) scope' = header sub g₁.scope := by
    have hkind : (sub.rename r).kind = sub.kind := rfl
    have hname : (sub.rename r).name = sub.name := rfl
    simp only [header, prologue, hkind, hname, hscope.className, hscope.countOf]
  have hctx : Context.Renames r ⟨g₁.scope, sub.kind⟩ ⟨scope', sub.kind⟩ := ⟨rfl, hscope⟩
  have hstmts' := Context.stmts_rename hctx sub.body.statements
    (hkeeps.inContext hthis hclass hopen) (g.output.append (header sub g₁.scope))
  rw [hstmts, mapError_ok] at hstmts'
  refine ⟨⟨scope', g₁.output⟩, ?_, hscope, rfl⟩
  have hbody : (sub.rename r).body.statements = sub.body.statements.rename r := rfl
  have hkind : (sub.rename r).kind = sub.kind := rfl
  simp only [subroutine, hopen', hheader, foldl_emit, h.output, hbody, hkind, hstmts']

theorem subroutines_rename (hinj : Function.Injective r) (hthis : r "this" = "this")
    {decl : ClassDecl} {subs : List Subroutine} {begun : Nat} {g g' g₁ : Generator}
    (h : g.Renames r g') (hclass : g.HasClass decl) (hkeeps : ∀ sub ∈ subs, Keeps r decl sub)
    (hok : subroutines begun subs g = .ok g₁) :
    ∃ g₁', subroutines begun (subs.map (Subroutine.rename r)) g' = .ok g₁' ∧ g₁.Renames r g₁' := by
  induction subs generalizing begun g g' with
  | nil =>
    obtain rfl : g = g₁ := Except.ok.inj hok
    exact ⟨g', rfl, h⟩
  | cons sub subs ih =>
    rw [List.forall_mem_cons] at hkeeps
    rw [subroutines] at hok
    split at hok
    · simp at hok
    next g₂ hsub =>
      obtain ⟨g₂', hsub', h₂⟩ := subroutine_rename hinj hthis h hclass hkeeps.1 hsub
      obtain ⟨g₁', hsubs, h₁⟩ := ih h₂ (subroutine_hasClass hclass hsub) hkeeps.2 hok
      refine ⟨g₁', ?_, h₁⟩
      simpa only [List.map_cons, subroutines, hsub'] using hsubs

theorem classDecl_rename (hinj : Function.Injective r) (hthis : r "this" = "this")
    {decl : ClassDecl} {g : Generator} (hkeeps : ∀ sub ∈ decl.subroutines, Keeps r decl sub)
    (hok : classDecl decl .empty = .ok g) :
    ∃ g', classDecl (decl.rename r) .empty = .ok g' ∧ g.Renames r g' := by
  have hname : (decl.rename r).name = decl.name := rfl
  rw [classDecl] at hok ⊢
  split at hok
  · simp at hok
  next scope hvars =>
    obtain ⟨scope', hvars', hscope⟩ :=
      declareClassVars_carries hinj decl.vars _ _ _ (Scope.empty_renames r decl.name.name) hvars
    have hg : Renames r ⟨scope, .empty⟩ ⟨scope', .empty⟩ := ⟨hscope, rfl⟩
    obtain ⟨g', hsubs, h'⟩ := subroutines_rename hinj hthis hg
      (declareClassVars_hasClass hvars _) hkeeps hok
    refine ⟨g', ?_, h'⟩
    have hstart : declareClassVars (decl.rename r).vars
        { Generator.empty.scope with className := (decl.rename r).name.name } = .ok scope' := hvars'
    rw [hstart]
    exact hsubs

/-- A class with code has the same code under the other names. -/
theorem compile_renamed (hinj : Function.Injective r) (hthis : r "this" = "this")
    {decl : ClassDecl} {code : List Instr} (hkeeps : ∀ sub ∈ decl.subroutines, Keeps r decl sub)
    (hok : (compile decl .empty).1 = .ok code) :
    (compile (decl.rename r) .empty).1 = .ok code := by
  cases hclass : classDecl decl .empty with
  | error failure => simp [compile, hclass] at hok
  | ok g =>
    obtain ⟨g', hclass', h⟩ := classDecl_rename hinj hthis hkeeps hclass
    simpa [compile, hclass, hclass', h.output] using hok

end Generator

/-! ### Identifiers for identifiers -/

instance (text : String) : Decidable (Kind.identifier.Spells text.toList) :=
  decidable_of_iff (text.toList.head?.any isLetter = true ∧ text.toList.all isWordChar = true ∧
      Keyword.ofText? (String.ofList text.toList) = none) <| by
    cases text.toList <;> simp [Kind.Spells]

/-- A word that can be the name of a variable: no keyword. -/
@[ext] structure Identifier where
  text : String
  spells : Kind.identifier.Spells text.toList
deriving DecidableEq

namespace Identifier

/-- A map of identifiers on all texts. What is no identifier stays as it is. -/
def onText (r : Identifier → Identifier) (text : String) : String :=
  if h : Kind.identifier.Spells text.toList then (r ⟨text, h⟩).text else text

theorem onText_text (r : Identifier → Identifier) (x : Identifier) :
    onText r x.text = (r x).text := dif_pos x.spells

theorem onText_of_not {r : Identifier → Identifier} {text : String}
    (h : ¬ Kind.identifier.Spells text.toList) : onText r text = text := dif_neg h

theorem onText_this (r : Identifier → Identifier) : onText r "this" = "this" :=
  onText_of_not (by decide)

theorem spells_onText_iff (r : Identifier → Identifier) (text : String) :
    Kind.identifier.Spells (onText r text).toList ↔ Kind.identifier.Spells text.toList := by
  by_cases h : Kind.identifier.Spells text.toList
  · exact iff_of_true (onText_text r ⟨text, h⟩ ▸ (r ⟨text, h⟩).spells) h
  · rw [onText_of_not h]

theorem onText_injective (r : Identifier ↪ Identifier) : Function.Injective (onText r) := by
  intro text text' heq
  have hiff : Kind.identifier.Spells text.toList ↔ Kind.identifier.Spells text'.toList := by
    rw [← spells_onText_iff r, heq, spells_onText_iff]
  by_cases h : Kind.identifier.Spells text.toList
  · have htext : (r ⟨text, h⟩).text = (r ⟨text', hiff.1 h⟩).text := by
      rw [← onText_text, ← onText_text]
      exact heq
    exact congrArg Identifier.text (r.injective (Identifier.ext htext))
  · rwa [onText_of_not h, onText_of_not (mt hiff.2 h)] at heq

end Identifier

/-- The tree without the places of its parts. -/
def ClassDecl.unplaced (decl : ClassDecl) : ClassDecl := decl.move fun _ => ⟨0, 0⟩

theorem Generator.compile_unplaced_eq_ok_iff {decl : ClassDecl} {code : List Instr} :
    (compile decl.unplaced .empty).1 = .ok code ↔ (compile decl .empty).1 = .ok code := by
  rw [ClassDecl.unplaced, compile_move]
  cases (compile decl .empty).1 <;> simp

/-- Identifiers can be exchanged for others, one to one, as long as receivers that name a class keep
their names: the class then has the same code, and so has every source of the class with its
variables under their other names, wherever these stand in it. -/
theorem Generator.compile_rename_identifiers {decl : ClassDecl} {code : List Instr}
    (r : Identifier ↪ Identifier)
    (hreceivers : ∀ sub ∈ decl.subroutines, ∀ x : Identifier,
      .receiver x.text ∈ sub.occurrences → x.text ∉ decl.namesIn sub → r x = x)
    (hcode : (compile decl .empty).1 = .ok code) :
    (compile (decl.rename (Identifier.onText r)) .empty).1 = .ok code ∧
      ∀ unit target decl', parseSource unit target = .ok decl' →
        decl'.unplaced = (decl.rename (Identifier.onText r)).unplaced →
          compileSource unit target = .ok code := by
  have hkeeps : ∀ sub ∈ decl.subroutines, Keeps (Identifier.onText r) decl sub := by
    intro sub hsub name hname hnone
    by_cases h : Kind.identifier.Spells name.toList
    · exact (Identifier.onText_text r ⟨name, h⟩).trans
        (congrArg Identifier.text (hreceivers sub hsub ⟨name, h⟩ hname hnone))
    · exact Identifier.onText_of_not h
  have hrenamed := compile_renamed (Identifier.onText_injective r) (Identifier.onText_this r)
    hkeeps hcode
  refine ⟨hrenamed, fun unit target decl' hparse hsame => ?_⟩
  rw [← compile_unplaced_eq_ok_iff, ← hsame, compile_unplaced_eq_ok_iff] at hrenamed
  exact compileSource_of_compile hparse hrenamed

/-- A class with a variable `w`, a subroutine in which a local variable hides it and a receiver is a
variable, and one in which the receiver of the same name is a class. -/
def hidingSource (w x : String) : String :=
  "class A \x7b static int " ++ w ++ "; method int f(B y, int " ++ x ++ ") \x7b var int " ++ w ++
    "; let " ++ w ++ " = y.g(" ++ x ++ "); return " ++ w ++ "; \x7d function int g() \x7b let " ++
    w ++ " = y.h(); return " ++ w ++ "; \x7d \x7d"

def hidingMethod (w x : String) : Subroutine :=
  let call : Call := .mk (some (⟨"y", ⟨70, 1⟩⟩, ⟨71, 1⟩)) ⟨"g", ⟨72, 1⟩⟩ ⟨73, 1⟩
    (.some (.mk (.var ⟨x, ⟨74, 1⟩⟩) .nil) .nil) ⟨75, 1⟩
  let assign : Stmt := .assign ⟨62, 3⟩ ⟨w, ⟨66, 1⟩⟩ none ⟨68, 1⟩ (.mk (.call call) .nil) ⟨76, 1⟩
  let result : Stmt := .finish ⟨78, 6⟩ (some (.mk (.var ⟨w, ⟨85, 1⟩⟩) .nil)) ⟨86, 1⟩
  ⟨.method, ⟨24, 6⟩, .value (.primitive .int ⟨31, 3⟩), ⟨"f", ⟨35, 1⟩⟩, ⟨36, 1⟩,
    some ⟨⟨.object ⟨"B", ⟨37, 1⟩⟩, ⟨"y", ⟨39, 1⟩⟩⟩,
      [(⟨40, 1⟩, ⟨.primitive .int ⟨42, 3⟩, ⟨x, ⟨46, 1⟩⟩⟩)]⟩, ⟨47, 1⟩,
    ⟨⟨49, 1⟩, [⟨⟨51, 3⟩, .primitive .int ⟨55, 3⟩, ⟨⟨w, ⟨59, 1⟩⟩, []⟩, ⟨60, 1⟩⟩],
      .cons assign (.cons result .nil), ⟨88, 1⟩⟩⟩

def hidingFunction (w : String) : Subroutine :=
  let call : Call := .mk (some (⟨"y", ⟨117, 1⟩⟩, ⟨118, 1⟩)) ⟨"h", ⟨119, 1⟩⟩ ⟨120, 1⟩ .none ⟨121, 1⟩
  let assign : Stmt :=
    .assign ⟨109, 3⟩ ⟨w, ⟨113, 1⟩⟩ none ⟨115, 1⟩ (.mk (.call call) .nil) ⟨122, 1⟩
  let result : Stmt := .finish ⟨124, 6⟩ (some (.mk (.var ⟨w, ⟨131, 1⟩⟩) .nil)) ⟨132, 1⟩
  ⟨.function, ⟨90, 8⟩, .value (.primitive .int ⟨99, 3⟩), ⟨"g", ⟨103, 1⟩⟩, ⟨104, 1⟩, none, ⟨105, 1⟩,
    ⟨⟨107, 1⟩, [], .cons assign (.cons result .nil), ⟨134, 1⟩⟩⟩

def hidingClass (w x : String) : ClassDecl :=
  ⟨⟨0, 5⟩, ⟨"A", ⟨6, 1⟩⟩, ⟨8, 1⟩,
    [⟨.static, ⟨10, 6⟩, .primitive .int ⟨17, 3⟩, ⟨⟨w, ⟨21, 1⟩⟩, []⟩, ⟨22, 1⟩⟩],
    [hidingMethod w x, hidingFunction w], ⟨136, 1⟩⟩

theorem parseSource_hidingSource : parseSource "A" (hidingSource "w" "x") =
    .ok (hidingClass "w" "x") :=
  parseSource_of_tokens (by decide +kernel) (by decide +kernel) (by decide)

theorem parseSource_hidingSource_exchanged : parseSource "A" (hidingSource "x" "w") =
    .ok (hidingClass "x" "w") :=
  parseSource_of_tokens (by decide +kernel) (by decide +kernel) (by decide)

theorem hidingClass_rename {r : String → String} (h : r "y" = "y") (w x : String) :
    (hidingClass w x).rename r = hidingClass (r w) (r x) := by
  simp [hidingClass, hidingMethod, hidingFunction, ClassDecl.rename, ClassVarDec.rename,
    Subroutine.rename, Param.rename, Separated.map, Body.rename, VarDec.rename, Ident.rename,
    Stmts.rename, Stmt.rename, Expr.rename, Term.rename, OpTerms.rename, Call.rename, Args.rename,
    MoreArgs.rename, h]

theorem hidingClass_receivers {sub : Subroutine} (hsub : sub ∈ (hidingClass "w" "x").subroutines)
    {name : String} (h : .receiver name ∈ sub.occurrences) : name = "y" := by
  rcases List.mem_pair.1 hsub with rfl | rfl <;>
    simpa [hidingMethod, hidingFunction, Subroutine.occurrences, Stmts.occurrences,
      Stmt.occurrences, Expr.occurrences, Term.occurrences, OpTerms.occurrences, Call.occurrences,
      receiverOccurrence, Args.occurrences, MoreArgs.occurrences, SubroutineKind.occurrences]
      using h

theorem Generator.compile_exchange_identifiers :
    let decl := hidingClass "w" "x"
    let r := (Equiv.swap (⟨"w", by decide⟩ : Identifier) ⟨"x", by decide⟩).toEmbedding
    (∀ sub ∈ decl.subroutines, ∀ x : Identifier, .receiver x.text ∈ sub.occurrences →
      x.text ∉ decl.namesIn sub → r x = x) ∧
    ∃ code, compileSource "A" (hidingSource "w" "x") = .ok code ∧
      (compile (decl.rename (Identifier.onText r)) .empty).1 = .ok code ∧
      compileSource "A" (hidingSource "x" "w") = .ok code := by
  intro decl r
  have hreceivers : ∀ sub ∈ decl.subroutines, ∀ x : Identifier,
      .receiver x.text ∈ sub.occurrences → x.text ∉ decl.namesIn sub → r x = x := by
    intro sub hsub x hx _
    obtain rfl : x = ⟨"y", by decide⟩ := Identifier.ext (hidingClass_receivers hsub hx)
    exact Equiv.swap_apply_of_ne_of_ne (by decide) (by decide)
  have hcode : ∃ code, (compile decl .empty).1 = .ok code := by
    have hnone : decl.violations.head? = none := by decide
    cases hcompile : (compile decl .empty).1 with
    | ok code => exact ⟨code, rfl⟩
    | error e =>
      have hthis := noThis_of_parseSource parseSource_hidingSource
      rw [(compile_eq_error_iff hthis).1 hcompile] at hnone
      simp at hnone
  obtain ⟨code, hcode⟩ := hcode
  obtain ⟨hrenamed, htarget⟩ := compile_rename_identifiers r hreceivers hcode
  have hdecl : hidingClass "x" "w" = decl.rename (Identifier.onText r) := by
    rw [hidingClass_rename (by decide)]
    exact congrArg₂ hidingClass (by decide) (by decide)
  exact ⟨hreceivers, code, compileSource_of_compile parseSource_hidingSource hcode, hrenamed,
    htarget "A" _ _ parseSource_hidingSource_exchanged (congrArg ClassDecl.unplaced hdecl)⟩

end Jack
