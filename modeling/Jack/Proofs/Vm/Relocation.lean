import Jack.Proofs.Tree.Relocation
import Jack.Vm.Generator

/-!
The code of a class does not depend on where its tokens stand. With the spans of a tree moved, the
generator gives the same code, or the same error at the place that its span is moved to.
-/

namespace Jack

section

variable {ε ε' α β : Type}

theorem mapError_bind (h : ε → ε') (x : Except ε α) (g : α → Except ε β) :
    (x >>= g).mapError h = x.mapError h >>= fun a => (g a).mapError h := by
  cases x <;> rfl

@[simp] theorem mapError_ok (h : ε → ε') (a : α) :
    (Except.ok a : Except ε α).mapError h = .ok a := rfl

@[simp] theorem mapError_pure (h : ε → ε') (a : α) :
    (pure a : Except ε α).mapError h = pure a := rfl

@[simp] theorem mapError_error (h : ε → ε') (e : ε) :
    (Except.error e : Except ε α).mapError h = .error (h e) := rfl

end

section

variable (f : Span → Span)

/-- The same fault at another place. -/
def CompileError.move (e : CompileError) : CompileError := ⟨e.fault, f e.span⟩

def Stop.move (stop : Stop) : Stop := ⟨stop.error.move f, stop.output⟩

end

variable {f : Span → Span}

@[simp] theorem MoreArgs.lengthFrom_move (as : MoreArgs) (n : Nat) :
    (as.move f).lengthFrom n = as.lengthFrom n := by
  induction n, as using MoreArgs.lengthFrom.induct with
  | case1 n => rfl
  | case2 n comma arg rest ih => exact ih

@[simp] theorem Args.length_move (as : Args) : (as.move f).length = as.length := by
  cases as with
  | none => rfl
  | some head tail => exact tail.lengthFrom_move 1

theorem VarType.name_move (type : VarType) : (type.move f).name = type.name := by
  cases type <;> rfl

theorem Separated.toList_move {α : Type} (item : α → α) (xs : Separated α) :
    (xs.move f item).toList = xs.toList.map item := by
  simp [Separated.move, Separated.toList, moveBehind, Function.comp_def]

namespace Context

variable (ctx : Context)

theorem resolve_move (name : Ident) (out : Output) :
    ctx.resolve (name.move f) out = (ctx.resolve name out).mapError (Stop.move f) := by
  simp only [resolve, Ident.move]
  cases ctx.scope.lookup name.name <;> rfl

theorem characters_move (span : Span) (cs : List Char) (out : Output) :
    characters (f span) cs out = (characters span cs out).mapError (Stop.move f) := by
  induction cs generalizing out with
  | nil => rfl
  | cons c cs ih =>
    simp only [characters]
    split
    · exact ih _
    · rfl

theorem string_move (value : String) (span : Span) (out : Output) :
    string value (f span) out = (string value span out).mapError (Stop.move f) := by
  simp only [string]
  split
  · exact characters_move span _ _
  · rfl

theorem receiver_move (recv : Option (Ident × Span)) (out : Output) :
    ctx.receiver (recv.map fun x => (x.1.move f, f x.2)) out = ctx.receiver recv out := by
  cases recv <;> rfl

mutual

theorem expr_move (e : Expr) (out : Output) :
    ctx.expr (e.move f) out = (ctx.expr e out).mapError (Stop.move f) := by
  cases e with
  | mk head tail => simp only [Expr.move, expr, mapError_bind, term_move head, opTerms_move tail]

theorem opTerms_move (ts : OpTerms) (out : Output) :
    ctx.opTerms (ts.move f) out = (ctx.opTerms ts out).mapError (Stop.move f) := by
  cases ts with
  | nil => rfl
  | cons op span t rest =>
    simp only [OpTerms.move, opTerms, mapError_bind, term_move t, opTerms_move rest]

theorem term_move (t : Term) (out : Output) :
    ctx.term (t.move f) out = (ctx.term t out).mapError (Stop.move f) := by
  cases t with
  | integer value span => rfl
  | string value span => exact string_move value span out
  | named value span => rfl
  | paren left e right => exact expr_move e out
  | unary op span t => simp only [Term.move, term, mapError_bind, term_move t, mapError_pure]
  | var name => simp only [Term.move, term, mapError_bind, resolve_move, mapError_pure]
  | element name index =>
    simp only [Term.move, term, mapError_bind, resolve_move, offset_move index, mapError_pure]
  | call c => exact call_move c out

theorem offset_move (index : Index) (out : Output) :
    ctx.offset (index.move f) out = (ctx.offset index out).mapError (Stop.move f) := by
  cases index with
  | mk left e right => simp only [Index.move, offset, mapError_bind, expr_move e, mapError_pure]

theorem call_move (c : Call) (out : Output) :
    ctx.call (c.move f) out = (ctx.call c out).mapError (Stop.move f) := by
  cases c with
  | mk recv name left as right =>
    simp only [Call.move, call, receiver_move, mapError_bind, args_move as, Args.length_move]
    congr 1
    funext out'
    split <;> rfl

theorem args_move (as : Args) (out : Output) :
    ctx.args (as.move f) out = (ctx.args as out).mapError (Stop.move f) := by
  cases as with
  | none => rfl
  | some head tail => simp only [Args.move, args, mapError_bind, expr_move head, moreArgs_move tail]

theorem moreArgs_move (as : MoreArgs) (out : Output) :
    ctx.moreArgs (as.move f) out = (ctx.moreArgs as out).mapError (Stop.move f) := by
  cases as with
  | nil => rfl
  | cons comma e rest =>
    simp only [MoreArgs.move, moreArgs, mapError_bind, expr_move e, moreArgs_move rest]

end

mutual

theorem stmt_move (s : Stmt) (out : Output) :
    ctx.stmt (s.move f) out = (ctx.stmt s out).mapError (Stop.move f) := by
  cases s with
  | assign keyword target index equal value semicolon =>
    cases index with
    | none =>
      simp only [Stmt.move, Option.map_none, stmt, mapError_bind, resolve_move, expr_move,
        mapError_pure]
    | some index =>
      simp only [Stmt.move, Option.map_some, stmt, mapError_bind, resolve_move, offset_move,
        expr_move, mapError_pure]
  | branch keyword left condition right yes no =>
    simp only [Stmt.move, stmt, mapError_bind, expr_move, otherwise_move no, block_move yes,
      mapError_pure]
  | loop keyword left condition right body =>
    simp only [Stmt.move, stmt, mapError_bind, expr_move, block_move body, mapError_pure]
  | perform keyword c semicolon =>
    simp only [Stmt.move, stmt, mapError_bind, call_move, mapError_pure]
  | finish keyword value semicolon =>
    cases value with
    | none => rfl
    | some value =>
      simp only [Stmt.move, Option.map_some, stmt, mapError_bind, expr_move, mapError_pure]

theorem otherwise_move (no : Otherwise) (out : Output) :
    ctx.otherwise (no.move f) out = (ctx.otherwise no out).mapError (Stop.move f) := by
  cases no with
  | none => rfl
  | some keyword b => exact block_move b out

theorem block_move (b : Block) (out : Output) :
    ctx.block (b.move f) out = (ctx.block b out).mapError (Stop.move f) := by
  cases b with
  | mk left body right => exact stmts_move body out

theorem stmts_move (ss : Stmts) (out : Output) :
    ctx.stmts (ss.move f) out = (ctx.stmts ss out).mapError (Stop.move f) := by
  cases ss with
  | nil => rfl
  | cons s rest => simp only [Stmts.move, stmts, mapError_bind, stmt_move s, stmts_move rest]

end

end Context

namespace Generator

variable (f) in
/-- An error and what comes with it, at another place. -/
def moveError {α : Type} (x : CompileError × α) : CompileError × α := (x.1.move f, x.2)

theorem declareError_move (name : Ident) (e : ScopeError) :
    declareError (name.move f) e = (declareError name e).move f := by
  cases e <;> rfl

theorem declare_move (type : String) (kind : VarKind) (names : List Ident) (scope : Scope) :
    declare type kind (names.map (Ident.move f)) scope =
      (declare type kind names scope).mapError (moveError f) := by
  induction names generalizing scope with
  | nil => rfl
  | cons name names ih =>
    have hname : (name.move f).name = name.name := rfl
    simp only [List.map_cons, declare, hname, declareError_move]
    cases scope.define name.name type kind with
    | mk result after =>
      cases result with
      | ok index => exact ih after
      | error e => rfl

theorem declareClassVars_move (decs : List ClassVarDec) (scope : Scope) :
    declareClassVars (decs.map (ClassVarDec.move f)) scope =
      (declareClassVars decs scope).mapError (moveError f) := by
  induction decs generalizing scope with
  | nil => rfl
  | cons dec decs ih =>
    simp only [List.map_cons, declareClassVars, ClassVarDec.move, VarType.name_move,
      Separated.toList_move, declare_move, mapError_bind]
    simp only [ih]

theorem declareParams_move (ps : List Param) (scope : Scope) :
    declareParams (ps.map (Param.move f)) scope =
      (declareParams ps scope).mapError (moveError f) := by
  induction ps generalizing scope with
  | nil => rfl
  | cons p ps ih =>
    have hdeclare := declare_move (f := f) p.type.name .argument [p.name]
    simp only [List.map_cons, List.map_nil] at hdeclare
    simp only [List.map_cons, declareParams, Param.move, VarType.name_move, hdeclare,
      mapError_bind]
    simp only [ih]

theorem declareVars_move (decs : List VarDec) (scope : Scope) :
    declareVars (decs.map (VarDec.move f)) scope =
      (declareVars decs scope).mapError (moveError f) := by
  induction decs generalizing scope with
  | nil => rfl
  | cons dec decs ih =>
    simp only [List.map_cons, declareVars, VarDec.move, VarType.name_move,
      Separated.toList_move, declare_move, mapError_bind]
    simp only [ih]

theorem declareThis_move (sub : Subroutine) (scope : Scope) :
    declareThis (sub.move f) scope = (declareThis sub scope).mapError (moveError f) := by
  have hkind : (sub.move f).kind = sub.kind := rfl
  have hspan : (sub.move f).name.span = f sub.name.span := rfl
  simp only [declareThis, hkind, hspan]
  cases sub.kind with
  | constructor => rfl
  | function => rfl
  | method =>
    cases scope.define "this" scope.className .argument with
    | mk result after => cases result <;> rfl

theorem openScope_move (sub : Subroutine) (scope : Scope) :
    openScope (sub.move f) scope = (openScope sub scope).mapError (moveError f) := by
  have hparams : (sub.move f).params.elim [] Separated.toList =
      (sub.params.elim [] Separated.toList).map (Param.move f) := by
    cases h : sub.params <;> simp [Subroutine.move, h, Separated.toList_move]
  have hvars : (sub.move f).body.vars = sub.body.vars.map (VarDec.move f) := rfl
  simp only [openScope, declareThis_move, hparams, declareParams_move, hvars, declareVars_move,
    mapError_bind]

theorem subroutine_move (sub : Subroutine) (g : Generator) :
    subroutine (sub.move f) g = (subroutine sub g).mapError (moveError f) := by
  have hheader (scope : Scope) : header (sub.move f) scope = header sub scope := rfl
  have hkind : (sub.move f).kind = sub.kind := rfl
  have hstmts : (sub.move f).body.statements = sub.body.statements.move f := rfl
  simp only [subroutine, openScope_move, hheader, hkind, hstmts, Context.stmts_move]
  cases openScope sub g.scope with
  | error e => rfl
  | ok scope =>
    simp only [mapError_ok]
    cases Context.stmts ⟨scope, sub.kind⟩ sub.body.statements
      ((header sub scope).foldl Output.emit g.output) <;> rfl

theorem subroutines_move (subs : List Subroutine) (begun : Nat) (g : Generator) :
    subroutines begun (subs.map (Subroutine.move f)) g =
      (subroutines begun subs g).mapError fun failure =>
        { failure with error := failure.error.move f } := by
  induction subs generalizing begun g with
  | nil => rfl
  | cons sub subs ih =>
    simp only [List.map_cons, subroutines, subroutine_move]
    cases subroutine sub g with
    | error e => rfl
    | ok g' => exact ih (begun + 1) g'

theorem classDecl_move (decl : ClassDecl) (g : Generator) :
    classDecl (decl.move f) g =
      (classDecl decl g).mapError fun failure =>
        { failure with error := failure.error.move f } := by
  simp only [classDecl, ClassDecl.move, Ident.move, declareClassVars_move]
  cases declareClassVars decl.vars { g.scope with className := decl.name.name } with
  | error e => rfl
  | ok scope => exact subroutines_move decl.subroutines 0 { g with scope }

/-- A generator goes on alike from trees that differ in their places, and reports the same fault at
the other place. -/
theorem compile_move (decl : ClassDecl) (g : Generator) :
    g.compile (decl.move f) =
      ((g.compile decl).1.mapError (CompileError.move f), (g.compile decl).2) := by
  simp only [compile, classDecl_move]
  cases classDecl decl g <;> rfl

end Generator

end Jack
