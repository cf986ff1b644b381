import Jack.Proofs.Safety
import Jack.Proofs.Token.Decimals
import Jack.Proofs.Vm.Headers

/-!
The constants that code pushes. They are listed for a tree in the order in which code is made, those
of integer terms with the places of the terms. The code of a source pushes what is listed and no
other constant, and each integer term of the tree is listed once, with the value that its digits
have in the source.
-/

namespace Jack

/-! ### Constants of trees -/

/-- A constant that is pushed. -/
inductive Constant where
  /-- For an integer term, the place of the term with it. -/
  | integer (value : Nat) (span : Span)
  /-- For anything else: a truth value, a part of a string, the size of an object, or the result of
  a subroutine that has none. -/
  | other (value : Nat)
deriving DecidableEq, Repr

namespace Constant

def value : Constant → Nat
  | integer value _ => value
  | other value => value

/-- The value and the place of the integer term that the constant is for. -/
def term? : Constant → Option (Nat × Span)
  | integer value span => some (value, span)
  | other _ => none

end Constant

def NamedConstant.constants : NamedConstant → List Constant
  | .true => [.other 1]
  | .false => [.other 0]
  | .null => [.other 0]
  | .this => []

mutual

def Expr.constants : Expr → List Constant
  | .mk head tail => head.constants ++ tail.constants

def OpTerms.constants : OpTerms → List Constant
  | .nil => []
  | .cons _ _ t rest => t.constants ++ rest.constants

def Term.constants : Term → List Constant
  | .integer value span => [.integer value span]
  | .string value _ => .other value.length :: value.toList.map fun c => .other c.toNat
  | .named value _ => value.constants
  | .paren _ e _ => e.constants
  | .unary _ _ t => t.constants
  | .var _ => []
  | .element _ index => index.constants
  | .call c => c.constants

def Index.constants : Index → List Constant
  | .mk _ e _ => e.constants

def Call.constants : Call → List Constant
  | .mk _ _ _ as _ => as.constants

def Args.constants : Args → List Constant
  | .none => []
  | .some head tail => head.constants ++ tail.constants

def MoreArgs.constants : MoreArgs → List Constant
  | .nil => []
  | .cons _ e rest => e.constants ++ rest.constants

end

mutual

/-- What is done otherwise comes first in a branch. -/
def Stmt.constants : Stmt → List Constant
  | .assign _ _ none _ value _ => value.constants
  | .assign _ _ (some index) _ value _ => index.constants ++ value.constants
  | .branch _ _ condition _ yes no => condition.constants ++ (no.constants ++ yes.constants)
  | .loop _ _ condition _ body => condition.constants ++ body.constants
  | .perform _ c _ => c.constants
  | .finish _ none _ => [.other 0]
  | .finish _ (some value) _ => value.constants

def Otherwise.constants : Otherwise → List Constant
  | .none => []
  | .some _ b => b.constants

def Block.constants : Block → List Constant
  | .mk _ body _ => body.constants

def Stmts.constants : Stmts → List Constant
  | .nil => []
  | .cons s rest => s.constants ++ rest.constants

end

/-- A constructor pushes the number of fields of its class first. -/
def Subroutine.constants (decl : ClassDecl) (sub : Subroutine) : List Constant :=
  (if sub.kind = .constructor then [.other decl.fieldCount] else []) ++
    sub.body.statements.constants

def ClassDecl.constants (decl : ClassDecl) : List Constant :=
  decl.subroutines.flatMap (Subroutine.constants decl)

/-! ### Constants in code -/

/-- The constant that an instruction pushes. -/
def Instr.constant? : Instr → Option Nat
  | .push .constant n => some n
  | _ => none

/-- The constants that code pushes, in order. -/
def constantsOf (code : List Instr) : List Nat := code.filterMap Instr.constant?

@[simp] theorem constantsOf_nil : constantsOf [] = [] := rfl

@[simp] theorem constantsOf_append (block₁ block₂ : List Instr) :
    constantsOf (block₁ ++ block₂) = constantsOf block₁ ++ constantsOf block₂ :=
  List.filterMap_append

@[simp] theorem constantsOf_cons (i : Instr) (block : List Instr) :
    constantsOf (i :: block) = i.constant?.toList ++ constantsOf block := by
  rw [constantsOf, List.filterMap_cons]
  cases i.constant? <;> rfl

theorem constant?_variable_push (v : Variable) : v.push.constant? = none := by
  obtain ⟨name, type, kind, index⟩ := v
  cases kind <;> rfl

theorem constant?_this (ctx : Context) : ctx.this.constant? = none := by
  obtain ⟨scope, kind⟩ := ctx
  cases kind <;> rfl

theorem constant?_binaryOp (op : BinaryOp) : op.instr.constant? = none := by cases op <;> rfl

theorem constant?_unaryOp (op : UnaryOp) : op.instr.constant? = none := by cases op <;> rfl

namespace Code

variable {ctx : Context} {out : Output}

theorem constant?_push {name : Ident} {v : Variable} (h : ctx.resolve name out = .ok v) :
    (push ctx name).constant? = none := by
  rw [Context.push_of_resolve h]
  exact constant?_variable_push v

theorem constant?_pop (name : Ident) : (pop ctx name).constant? = none := by
  rw [pop]
  cases ctx.scope.lookup name.name <;> rfl

theorem constantsOf_named (value : NamedConstant) :
    constantsOf (named ctx value) = value.constants.map Constant.value := by
  cases value with
  | this => simp [named, NamedConstant.constants, constant?_this]
  | true | false | null => rfl

theorem constantsOf_characters (cs : List Char) :
    constantsOf (characters cs) = cs.map Char.toNat := by
  induction cs with
  | nil => rfl
  | cons c cs ih =>
    rw [characters, List.flatMap_cons, constantsOf_append, List.map_cons]
    exact congrArg (c.toNat :: ·) ih

theorem constantsOf_string (value : String) (span : Span) :
    constantsOf (string value) = (Term.string value span).constants.map Constant.value := by
  simp [string, Term.constants, constantsOf_characters, Instr.constant?, Constant.value,
    Function.comp_def]

theorem constantsOf_receiver (recv : Option (Ident × Span)) :
    constantsOf (receiver ctx recv).2.2 = [] := by
  cases recv with
  | none => simp [receiver, constant?_this]
  | some object =>
    cases hv : ctx.scope.lookup object.1.name with
    | none => simp [receiver, hv]
    | some v => simp [receiver, hv, constant?_variable_push]

mutual

theorem constantsOf_expr : ∀ (e : Expr) {out out' : Output}, ctx.expr e out = .ok out' →
    constantsOf (expr ctx e) = e.constants.map Constant.value
  | .mk head tail, out, out', h => by
    obtain ⟨out₁, hhead, htail⟩ := bind_eq_ok_iff.1 h
    simp [expr, Expr.constants, constantsOf_term head hhead, constantsOf_opTerms tail htail]

theorem constantsOf_opTerms : ∀ (xs : OpTerms) {out out' : Output},
    ctx.opTerms xs out = .ok out' →
    constantsOf (opTerms ctx xs) = xs.constants.map Constant.value
  | .nil, _, _, _ => rfl
  | .cons op _ t rest, out, out', h => by
    obtain ⟨out₁, ht, hrest⟩ := bind_eq_ok_iff.1 h
    simp [opTerms, OpTerms.constants, constantsOf_term t ht, constantsOf_opTerms rest hrest,
      constant?_binaryOp]

theorem constantsOf_term : ∀ (t : Term) {out out' : Output}, ctx.term t out = .ok out' →
    constantsOf (term ctx t) = t.constants.map Constant.value
  | .integer _ _, _, _, _ => rfl
  | .string value span, _, _, _ => constantsOf_string value span
  | .named value _, _, _, _ => constantsOf_named value
  | .paren _ e _, _, _, h => constantsOf_expr e h
  | .unary op _ t, out, out', h => by
    obtain ⟨out₁, ht, -⟩ := bind_eq_ok_iff.1 h
    simp [term, Term.constants, constantsOf_term t ht, constant?_unaryOp]
  | .var name, out, out', h => by
    obtain ⟨v, hv, -⟩ := bind_eq_ok_iff.1 h
    simp [term, Term.constants, constant?_push hv]
  | .element name index, out, out', h => by
    obtain ⟨v, hv, hrest⟩ := bind_eq_ok_iff.1 h
    obtain ⟨out₁, hindex, -⟩ := bind_eq_ok_iff.1 hrest
    rw [term, constantsOf_cons, constant?_push hv]
    simp [Term.constants, constantsOf_offset index hindex, Instr.constant?]
  | .call c, _, _, h => constantsOf_call c h

theorem constantsOf_offset : ∀ (index : Index) {out out' : Output},
    ctx.offset index out = .ok out' →
    constantsOf (offset ctx index) = index.constants.map Constant.value
  | .mk _ e _, out, out', h => by
    obtain ⟨out₁, he, -⟩ := bind_eq_ok_iff.1 h
    simp [offset, Index.constants, constantsOf_expr e he, Instr.constant?]

theorem constantsOf_call : ∀ (c : Call) {out out' : Output}, ctx.call c out = .ok out' →
    constantsOf (call ctx c) = c.constants.map Constant.value
  | .mk recv name _ as _, out, out', h => by
    simp only [Context.call, Context.receiver_eq] at h
    obtain ⟨out₁, has, -⟩ := bind_eq_ok_iff.1 h
    simp [call, Call.constants, constantsOf_args as has, constantsOf_receiver, Instr.constant?]

theorem constantsOf_args : ∀ (as : Args) {out out' : Output}, ctx.args as out = .ok out' →
    constantsOf (args ctx as) = as.constants.map Constant.value
  | .none, _, _, _ => rfl
  | .some head tail, out, out', h => by
    obtain ⟨out₁, hhead, htail⟩ := bind_eq_ok_iff.1 h
    simp [args, Args.constants, constantsOf_expr head hhead, constantsOf_moreArgs tail htail]

theorem constantsOf_moreArgs : ∀ (as : MoreArgs) {out out' : Output},
    ctx.moreArgs as out = .ok out' →
    constantsOf (moreArgs ctx as) = as.constants.map Constant.value
  | .nil, _, _, _ => rfl
  | .cons _ e rest, out, out', h => by
    obtain ⟨out₁, he, hrest⟩ := bind_eq_ok_iff.1 h
    simp [moreArgs, MoreArgs.constants, constantsOf_expr e he, constantsOf_moreArgs rest hrest]

end

mutual

theorem constantsOf_stmt (n : Nat) : ∀ (s : Stmt) {out out' : Output},
    ctx.stmt s out = .ok out' → constantsOf (stmt ctx n s) = s.constants.map Constant.value
  | .assign _ target none _ value _, out, out', h => by
    obtain ⟨v, hv, hrest⟩ := bind_eq_ok_iff.1 h
    obtain ⟨out₁, hvalue, -⟩ := bind_eq_ok_iff.1 hrest
    simp [stmt, Stmt.constants, constantsOf_expr value hvalue, constant?_pop]
  | .assign _ target (some index) _ value _, out, out', h => by
    obtain ⟨v, hv, hrest⟩ := bind_eq_ok_iff.1 h
    obtain ⟨out₁, hindex, hrest'⟩ := bind_eq_ok_iff.1 hrest
    obtain ⟨out₂, hvalue, -⟩ := bind_eq_ok_iff.1 hrest'
    rw [stmt, constantsOf_cons, constant?_push hv]
    simp [Stmt.constants, constantsOf_offset index hindex, constantsOf_expr value hvalue,
      Instr.constant?]
  | .branch _ _ condition _ yes no, out, out', h => by
    obtain ⟨out₁, out₂, out₃, hcondition, hno, hyes, -⟩ := Context.branch_eq_ok h
    simp [stmt, Stmt.constants, constantsOf_expr condition hcondition,
      constantsOf_otherwise _ no hno, constantsOf_block _ yes hyes, Instr.constant?]
  | .loop _ _ condition _ body, out, out', h => by
    obtain ⟨out₁, out₂, hcondition, hbody, -⟩ := Context.loop_eq_ok h
    simp [stmt, Stmt.constants, constantsOf_expr condition hcondition,
      constantsOf_block _ body hbody, Instr.constant?]
  | .perform _ c _, out, out', h => by
    obtain ⟨out₁, hc, -⟩ := bind_eq_ok_iff.1 h
    simp [stmt, Stmt.constants, constantsOf_call c hc, Instr.constant?]
  | .finish _ none _, _, _, _ => rfl
  | .finish _ (some value) _, out, out', h => by
    obtain ⟨out₁, hvalue, -⟩ := bind_eq_ok_iff.1 h
    simp [stmt, Stmt.constants, constantsOf_expr value hvalue, Instr.constant?]

theorem constantsOf_otherwise (n : Nat) : ∀ (no : Otherwise) {out out' : Output},
    ctx.otherwise no out = .ok out' →
    constantsOf (otherwise ctx n no) = no.constants.map Constant.value
  | .none, _, _, _ => rfl
  | .some _ b, _, _, h => constantsOf_block n b h

theorem constantsOf_block (n : Nat) : ∀ (b : Block) {out out' : Output},
    ctx.block b out = .ok out' → constantsOf (block ctx n b) = b.constants.map Constant.value
  | .mk _ body _, _, _, h => constantsOf_stmts n body h

theorem constantsOf_stmts (n : Nat) : ∀ (body : Stmts) {out out' : Output},
    ctx.stmts body out = .ok out' →
    constantsOf (stmts ctx n body) = body.constants.map Constant.value
  | .nil, _, _, _ => rfl
  | .cons s rest, out, out', h => by
    obtain ⟨out₁, hs, hrest⟩ := bind_eq_ok_iff.1 h
    simp [stmts, Stmts.constants, constantsOf_stmt n s hs, constantsOf_stmts _ rest hrest]

end

end Code

/-! ### Integer terms -/

/-- The value and the place of an integer. -/
def Terminal.integer? : Terminal → Option (Nat × Span)
  | integer value span => some (value, span)
  | _ => none

/-- The integers among terminals. -/
def integersOf (ts : List Terminal) : List (Nat × Span) := ts.filterMap Terminal.integer?

/-- The integer terms of a class with their places, as they come in the text. -/
def ClassDecl.integers (decl : ClassDecl) : List (Nat × Span) := integersOf decl.terminals

/-- The integer terms that constants are for. -/
def termsOf (constants : List Constant) : List (Nat × Span) := constants.filterMap Constant.term?

section

variable {ts ts' : List Terminal} {span : Span}

@[simp] theorem integersOf_nil : integersOf [] = [] := rfl

@[simp] theorem integersOf_append : integersOf (ts ++ ts') = integersOf ts ++ integersOf ts' :=
  List.filterMap_append

@[simp] theorem integersOf_keyword {k : Keyword} :
    integersOf (.keyword k span :: ts) = integersOf ts := rfl

@[simp] theorem integersOf_symbol {s : Symbol} :
    integersOf (.symbol s span :: ts) = integersOf ts := rfl

@[simp] theorem integersOf_string {value : String} :
    integersOf (.string value span :: ts) = integersOf ts := rfl

@[simp] theorem integersOf_ident {name : Ident} :
    integersOf (name.terminal :: ts) = integersOf ts := rfl

@[simp] theorem termsOf_nil : termsOf [] = [] := rfl

@[simp] theorem termsOf_append {cs cs' : List Constant} :
    termsOf (cs ++ cs') = termsOf cs ++ termsOf cs' := List.filterMap_append

@[simp] theorem termsOf_other {value : Nat} {cs : List Constant} :
    termsOf (.other value :: cs) = termsOf cs := rfl

end

theorem termsOf_named (value : NamedConstant) : termsOf value.constants = [] := by
  cases value <;> rfl

theorem termsOf_characters (cs : List Char) :
    termsOf (cs.map fun c => .other c.toNat) = [] := by
  induction cs with
  | nil => rfl
  | cons c cs ih => rw [List.map_cons, termsOf_other, ih]

mutual

/-- In an expression the constants come in the order of the text. -/
theorem Expr.termsOf_constants : ∀ e : Expr, termsOf e.constants = integersOf e.terminals
  | .mk head tail => by
    simp [Expr.constants, Expr.terminals, head.termsOf_constants, tail.termsOf_constants]

theorem OpTerms.termsOf_constants : ∀ xs : OpTerms, termsOf xs.constants = integersOf xs.terminals
  | .nil => rfl
  | .cons op _ t rest => by
    simp [OpTerms.constants, OpTerms.terminals, t.termsOf_constants, rest.termsOf_constants]

theorem Term.termsOf_constants : ∀ t : Term, termsOf t.constants = integersOf t.terminals
  | .integer _ _ => rfl
  | .string value _ => by simp [Term.constants, Term.terminals, termsOf_characters]
  | .named value _ => by simp [Term.constants, Term.terminals, termsOf_named]
  | .paren _ e _ => by simp [Term.constants, Term.terminals, e.termsOf_constants]
  | .unary _ _ t => by simp [Term.constants, Term.terminals, t.termsOf_constants]
  | .var _ => rfl
  | .element _ index => by simp [Term.constants, Term.terminals, index.termsOf_constants]
  | .call c => c.termsOf_constants

theorem Index.termsOf_constants : ∀ index : Index,
    termsOf index.constants = integersOf index.terminals
  | .mk _ e _ => by simp [Index.constants, Index.terminals, e.termsOf_constants]

theorem Call.termsOf_constants : ∀ c : Call, termsOf c.constants = integersOf c.terminals
  | .mk none _ _ as _ => by simp [Call.constants, Call.terminals, as.termsOf_constants]
  | .mk (some (_, _)) _ _ as _ => by simp [Call.constants, Call.terminals, as.termsOf_constants]

theorem Args.termsOf_constants : ∀ as : Args, termsOf as.constants = integersOf as.terminals
  | .none => rfl
  | .some head tail => by
    simp [Args.constants, Args.terminals, head.termsOf_constants, tail.termsOf_constants]

theorem MoreArgs.termsOf_constants : ∀ more : MoreArgs,
    termsOf more.constants = integersOf more.terminals
  | .nil => rfl
  | .cons _ e rest => by
    simp [MoreArgs.constants, MoreArgs.terminals, e.termsOf_constants, rest.termsOf_constants]

end

mutual

/-- In a statement they come in another order only where a branch has its two parts. -/
theorem Stmt.termsOf_constants_perm : ∀ s : Stmt,
    (termsOf s.constants).Perm (integersOf s.terminals)
  | .assign _ _ none _ value _ => by simp [Stmt.constants, Stmt.terminals, value.termsOf_constants]
  | .assign _ _ (some index) _ value _ => by
    simp [Stmt.constants, Stmt.terminals, index.termsOf_constants, value.termsOf_constants]
  | .branch _ _ condition _ yes no => by
    simp only [Stmt.constants, Stmt.terminals, termsOf_append, integersOf_append,
      integersOf_keyword, integersOf_symbol, condition.termsOf_constants]
    have hparts := no.termsOf_constants_perm.append yes.termsOf_constants_perm
    exact (hparts.trans List.perm_append_comm).append_left _
  | .loop _ _ condition _ body => by
    simp only [Stmt.constants, Stmt.terminals, termsOf_append, integersOf_append,
      integersOf_keyword, integersOf_symbol, condition.termsOf_constants]
    exact body.termsOf_constants_perm.append_left _
  | .perform _ c _ => by simp [Stmt.constants, Stmt.terminals, c.termsOf_constants]
  | .finish _ none _ => by simp [Stmt.constants, Stmt.terminals]
  | .finish _ (some value) _ => by simp [Stmt.constants, Stmt.terminals, value.termsOf_constants]

theorem Otherwise.termsOf_constants_perm : ∀ no : Otherwise,
    (termsOf no.constants).Perm (integersOf no.terminals)
  | .none => .nil
  | .some _ b => b.termsOf_constants_perm

theorem Block.termsOf_constants_perm : ∀ b : Block,
    (termsOf b.constants).Perm (integersOf b.terminals)
  | .mk _ body _ => by simpa [Block.constants, Block.terminals] using body.termsOf_constants_perm

theorem Stmts.termsOf_constants_perm : ∀ body : Stmts,
    (termsOf body.constants).Perm (integersOf body.terminals)
  | .nil => .nil
  | .cons s rest => by
    simp only [Stmts.constants, Stmts.terminals, termsOf_append, integersOf_append]
    exact s.termsOf_constants_perm.append rest.termsOf_constants_perm

end

/-! ### Declarations have no integers -/

theorem integersOf_flatMap {α : Type} (f : α → List Terminal) (xs : List α) :
    integersOf (xs.flatMap f) = xs.flatMap fun x => integersOf (f x) := List.filterMap_flatMap

theorem integersOf_flatMap_eq_nil {α : Type} {f : α → List Terminal}
    (h : ∀ x, integersOf (f x) = []) (xs : List α) : integersOf (xs.flatMap f) = [] := by
  rw [integersOf_flatMap, List.flatMap_eq_nil_iff]
  exact fun x _ => h x

theorem Separated.integersOf_terminals {α : Type} {item : α → List Terminal}
    (h : ∀ x, integersOf (item x) = []) (xs : Separated α) :
    integersOf (xs.terminals item) = [] := by
  have hitem (x : Span × α) : integersOf (commaTerminals item x) = [] := h x.2
  rw [terminals, integersOf_append, h, integersOf_flatMap_eq_nil hitem, List.append_nil]

theorem VarType.integersOf_terminals (type : VarType) : integersOf type.terminals = [] := by
  cases type <;> rfl

theorem names_integersOf (names : Separated Ident) :
    integersOf (names.terminals Ident.terminals) = [] :=
  Separated.integersOf_terminals (fun _ => rfl) names

theorem ClassVarDec.integersOf_terminals (dec : ClassVarDec) : integersOf dec.terminals = [] := by
  simp [terminals, dec.type.integersOf_terminals, names_integersOf]

theorem VarDec.integersOf_terminals (dec : VarDec) : integersOf dec.terminals = [] := by
  simp [terminals, dec.type.integersOf_terminals, names_integersOf]

theorem paramTerminals_integersOf (params : Option (Separated Param)) :
    integersOf (paramTerminals params) = [] := by
  cases params with
  | none => rfl
  | some params =>
    refine Separated.integersOf_terminals (fun param => ?_) params
    simp [Param.terminals, param.type.integersOf_terminals]

theorem Subroutine.integersOf_terminals (sub : Subroutine) :
    integersOf sub.terminals = integersOf sub.body.statements.terminals := by
  have hreturns : integersOf sub.returns.terminals = [] := by
    cases sub.returns with
    | void span => rfl
    | value type => exact type.integersOf_terminals
  simp [terminals, Body.terminals, hreturns, paramTerminals_integersOf,
    integersOf_flatMap_eq_nil VarDec.integersOf_terminals]

theorem ClassDecl.integers_eq (decl : ClassDecl) : decl.integers =
    decl.subroutines.flatMap fun sub => integersOf sub.body.statements.terminals := by
  simp [integers, terminals, integersOf_flatMap_eq_nil ClassVarDec.integersOf_terminals,
    integersOf_flatMap, Subroutine.integersOf_terminals]

/-! ### Compiled classes -/

theorem ClassDecl.termsOf_constants_perm (decl : ClassDecl) :
    (termsOf decl.constants).Perm decl.integers := by
  have hterms : termsOf decl.constants =
      decl.subroutines.flatMap fun sub => termsOf (sub.constants decl) := List.filterMap_flatMap
  rw [hterms, decl.integers_eq]
  refine List.Perm.flatMap_left _ fun sub _ => ?_
  have hsize : termsOf (if sub.kind = .constructor then [.other decl.fieldCount] else []) = [] := by
    split <;> rfl
  rw [Subroutine.constants, termsOf_append, hsize]
  exact sub.body.statements.termsOf_constants_perm

namespace Generator

variable {decl : ClassDecl} {scope : Scope} {stages : List Stage} {g : Generator}

theorem Stage.constantsOf_code {stage : Stage} (hctx : stage.ctx.For decl stage.sub) :
    constantsOf stage.code = (stage.sub.constants decl).map Constant.value := by
  have hstmts := Code.constantsOf_stmts stage.before.output.labels stage.sub.body.statements
    (subroutine_eq_ok stage.compiles).2
  have hheader : header stage.sub stage.after.scope = _ := header_eq hctx
  have hopening : constantsOf (header stage.sub stage.after.scope) =
      (if stage.sub.kind = .constructor then [.other decl.fieldCount] else []).map
        Constant.value := by
    rw [hheader]
    cases stage.sub.kind <;> rfl
  rw [Subroutine.constants, List.map_append, ← hopening, ← hstmts, ← constantsOf_append]
  rfl

theorem CompiledIn.constantsOf_code (h : CompiledIn decl scope stages g) :
    constantsOf g.output.code.toList = decl.constants.map Constant.value := by
  have hstages (stage : Stage) (hstage : stage ∈ stages) :
      constantsOf stage.code = (stage.sub.constants decl).map Constant.value :=
    Stage.constantsOf_code (h.ctx_for hstage)
  rw [h.output_eq, ClassDecl.constants, ← h.subs]
  clear h
  induction stages with
  | nil => rfl
  | cons stage stages ih =>
    rw [List.forall_mem_cons] at hstages
    simp [hstages.1, ih hstages.2]

end Generator

/-! ### Whole sources -/

/-- The digits are those of an integer constant at the span, and the value is theirs: in base ten,
read with sixteen bits, and no larger than constants can be. -/
structure WrittenAt (source : String) (span : Span) (digits : List Char) (value : Nat) : Prop where
  fragment : span.fragment? source = some (String.ofList digits)
  nonempty : digits ≠ []
  decimal : ∀ d ∈ digits, isDigit d = true
  ofDigits : value = Nat.ofDigits 10 (digits.map digitValue).reverse
  read : wordOfDigits? digits = some value
  le : value ≤ 32767

theorem mem_integersOf_iff {ts : List Terminal} {value : Nat} {span : Span} :
    (value, span) ∈ integersOf ts ↔ .integer value span ∈ ts := by
  rw [integersOf, List.mem_filterMap]
  constructor
  · rintro ⟨x, hx, hvalue⟩
    cases x with
    | integer value' span' =>
      obtain ⟨rfl, rfl⟩ : value' = value ∧ span' = span := by
        simpa [Terminal.integer?] using hvalue
      exact hx
    | keyword | symbol | string | identifier => simp [Terminal.integer?] at hvalue
  · exact fun hx => ⟨_, hx, rfl⟩

theorem exists_writtenAt {unit source : String} {decl : ClassDecl} {value : Nat} {span : Span}
    (h : parseSource unit source = .ok decl) (hmem : .integer value span ∈ decl.terminals) :
    ∃ digits, WrittenAt source span digits value := by
  obtain ⟨tokens, htokens⟩ := tokenize_of_parseSource h
  obtain ⟨⟨-, hdenotes⟩, -⟩ := (parseSource_eq_ok_iff htokens).1 h
  obtain ⟨digits, hfragment, hvalue⟩ := hdenotes _ hmem
  obtain ⟨lexeme, hlexeme, hspells⟩ := liesIn_of_mem_terminals h hmem
  -- The text at the span is the one that the lexer has let pass.
  obtain rfl : digits = lexeme := by
    have hsame := Option.some.inj (hfragment.symm.trans hlexeme)
    simpa using congrArg String.toList hsame
  obtain ⟨hne, hdigits, hle⟩ := hspells
  rw [hvalue] at hle
  have hword : value < 2 ^ 16 := Nat.lt_of_le_of_lt hle (by decide)
  refine ⟨digits, hfragment, hne, hdigits, ?_, ?_, hle⟩
  · rw [← hvalue, decimalValue_eq_ofDigits]
  · rw [wordOfDigits?_eq, hvalue, word?_of_lt hword]

/-- No two integer terms of a source stand at the same place. -/
theorem integers_spans_nodup {unit source : String} {decl : ClassDecl}
    (h : parseSource unit source = .ok decl) : (decl.integers.map Prod.snd).Nodup := by
  obtain ⟨tokens, htokens, hdecl⟩ := tokens_of_parseSource h
  have hspans : (decl.terminals.map (·.token.span)).Nodup := by
    have hsublist := (List.dropLast_sublist tokens).map Token.span
    rw [← hdecl, ClassDecl.tokens, List.map_map] at hsublist
    exact (tokenize_spans_nodup htokens).sublist hsublist
  refine hspans.sublist ?_
  rw [ClassDecl.integers]
  generalize decl.terminals = ts
  induction ts with
  | nil => exact .slnil
  | cons x ts ih =>
    cases x with
    | integer value span => exact ih.cons_cons _
    | keyword | symbol | string | identifier => exact ih.cons _

theorem parseSource_ne_integer {unit source : String} {d : Diagnostic}
    (h : parseSource unit source = .error d) (t : Token) : d.cause ≠ .syntactic (.integer t) := by
  rw [parseSource] at h
  split at h
  · obtain rfl := Except.error.inj h
    simp [Diagnostic.located]
  next tokens htokens =>
    split at h
    next e hparse =>
      obtain rfl := Except.error.inj h
      obtain ⟨-, hkind⟩ := parseTokens_error htokens hparse
      intro hcause
      obtain rfl : e = .integer t := by simpa [Diagnostic.located] using hcause
      simp [SyntaxError.Misplaced] at hkind
    · simp at h

open Generator in
/-- An integer constant that the lexer lets pass is never refused later. Every integer term of a
tree has the value that its digits denote, with any number of zeros in front, and the code pushes
it: the constants in the code are, in order, those listed for the tree, where each of its integer
terms has one. -/
theorem compileSource_pushes_integers (unit source : String) :
    (∀ d t, parseSource unit source = .error d → d.cause ≠ .syntactic (.integer t)) ∧
    (∀ zeros digits, Kind.integer.Spells digits →
      Kind.integer.Spells (List.replicate zeros '0' ++ digits)) ∧
    ∀ decl, parseSource unit source = .ok decl →
      (decl.integers.map Prod.snd).Nodup ∧
      (∀ value span, (value, span) ∈ decl.integers →
        ∃ digits, WrittenAt source span digits value) ∧
      ∀ code, compileSource unit source = .ok code →
        constantsOf code = decl.constants.map Constant.value ∧
          (termsOf decl.constants).Perm decl.integers := by
  refine ⟨fun d t h => parseSource_ne_integer h t,
    fun zeros digits h => spells_integer_zeros zeros h, fun decl hparse => ?_⟩
  refine ⟨integers_spans_nodup hparse, fun value span hmem => ?_, fun code hcode => ?_⟩
  · exact exists_writtenAt hparse (mem_integersOf_iff.1 hmem)
  · obtain ⟨decl', scope, stages, g, hparse', hcompiled, rfl, -⟩ :=
      exists_stages_of_compileSource hcode
    obtain rfl : decl = decl' := Except.ok.inj (hparse.symm.trans hparse')
    exact ⟨hcompiled.constantsOf_code, decl.termsOf_constants_perm⟩

/-- The largest constant, with zeros in front, is pushed behind the one that comes after it in the
text. -/
theorem compileSource_pushes_integers_branch :
    let source := "class A \x7b function int f() \x7b " ++
      "if (true) \x7b return 00032767; \x7d else \x7b return 7; \x7d \x7d \x7d"
    ∃ decl code digits,
      parseSource "A" source = .ok decl ∧ compileSource "A" source = .ok code ∧
      decl.integers = [(32767, ⟨48, 8⟩), (7, ⟨74, 1⟩)] ∧
      WrittenAt source ⟨48, 8⟩ digits 32767 ∧ constantsOf code = [1, 7, 32767] := by
  intro source
  have hvalues : (parseSource "A" source).toOption.map
      (fun decl => (decl.violations, decl.integers, decl.constants.map Constant.value)) =
        some ([], [(32767, ⟨48, 8⟩), (7, ⟨74, 1⟩)], [1, 7, 32767]) := by decide +kernel
  obtain ⟨decl, hparse, hvalues⟩ := exists_ok_of_toOption_map hvalues
  simp only [Prod.mk.injEq] at hvalues
  obtain ⟨hnone, hintegers, hconstants⟩ := hvalues
  obtain ⟨code, hcode⟩ := exists_compileSource hparse hnone
  obtain ⟨-, -, hsource⟩ := compileSource_pushes_integers "A" source
  obtain ⟨-, hwritten, hpushes⟩ := hsource decl hparse
  obtain ⟨digits, hdigits⟩ := hwritten 32767 ⟨48, 8⟩ (by simp [hintegers])
  exact ⟨decl, code, digits, hparse, hcode, hintegers, hdigits,
    (hpushes code hcode).1.trans hconstants⟩

end Jack
