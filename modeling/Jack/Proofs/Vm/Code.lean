import Jack.Vm.Emit

/-!
The code of expressions and statements as a function of the tree. What is emitted for a tree is
appended to the output and depends on the output only through the number of the next label, so each
emitter is an append of this code.
-/

namespace Jack

/-! ### Outputs -/

namespace Output

/-- The output with a block behind it. -/
def append (out : Output) (block : List Instr) : Output :=
  { out with code := out.code ++ block.toArray }

@[simp] theorem append_nil (out : Output) : out.append [] = out := by simp [append]

@[simp] theorem append_append (out : Output) (block₁ block₂ : List Instr) :
    (out.append block₁).append block₂ = out.append (block₁ ++ block₂) := by simp [append]

@[simp] theorem emit_eq_append (out : Output) (i : Instr) : out.emit i = out.append [i] := by
  simp [emit, append]

@[simp] theorem toList_append (out : Output) (block : List Instr) :
    (out.append block).code.toList = out.code.toList ++ block := by simp [append]

@[simp] theorem labels_append (out : Output) (block : List Instr) :
    (out.append block).labels = out.labels := rfl

/-- The output when so many more labels have their numbers. -/
def number (out : Output) (count : Nat) : Output := { out with labels := out.labels + count }

@[simp] theorem number_zero (out : Output) : out.number 0 = out := rfl

@[simp] theorem number_number (out : Output) (j k : Nat) :
    (out.number j).number k = out.number (j + k) := by simp [number, Nat.add_assoc]

@[simp] theorem append_number (out : Output) (block : List Instr) (count : Nat) :
    (out.number count).append block = (out.append block).number count := rfl

@[simp] theorem code_number (out : Output) (count : Nat) : (out.number count).code = out.code := rfl

@[simp] theorem labels_number (out : Output) (count : Nat) :
    (out.number count).labels = out.labels + count := rfl

theorem nextLabel_eq (out : Output) : out.nextLabel = (out.labels, out.number 1) := rfl

end Output

theorem bind_eq_ok_iff {ε α β : Type} {x : Except ε α} {f : α → Except ε β} {b : β} :
    (x >>= f) = .ok b ↔ ∃ a, x = .ok a ∧ f a = .ok b := by
  cases x <;> simp [bind, Except.bind]

/-! ### Expressions -/

namespace Code

variable (ctx : Context)

/-- The instruction that pushes a variable. A name that means none counts as zero. -/
def push (name : Ident) : Instr :=
  (ctx.scope.lookup name.name).elim (.push .constant 0) Variable.push

def named : NamedConstant → List Instr
  | .true => [.push .constant 1, .op .neg]
  | .false => [.push .constant 0]
  | .null => [.push .constant 0]
  | .this => [ctx.this]

def characters (cs : List Char) : List Instr :=
  cs.flatMap fun c => [.push .constant c.toNat, .call "String.appendChar" 2]

def string (value : String) : List Instr :=
  .push .constant value.length :: .call "String.new" 1 :: characters value.toList

/-- The class of a call, the number of arguments that the receiver makes, and its code. -/
def receiver : Option (Ident × Span) → String × Nat × List Instr
  | none => (ctx.scope.className, 1, [ctx.this])
  | some (name, _) =>
    match ctx.scope.lookup name.name with
    | some v => (v.type, 1, [v.push])
    | none => (name.name, 0, [])

mutual

def expr : Expr → List Instr
  | .mk head tail => term head ++ opTerms tail

def opTerms : OpTerms → List Instr
  | .nil => []
  | .cons op _ t rest => term t ++ op.instr :: opTerms rest

def term : Term → List Instr
  | .integer value _ => [.push .constant value]
  | .string value _ => string value
  | .named value _ => named ctx value
  | .paren _ e _ => expr e
  | .unary op _ t => term t ++ [op.instr]
  | .var name => [push ctx name]
  | .element name index => push ctx name :: (offset index ++ [.pop .pointer 1, .push .that 0])
  | .call c => call c

def offset : Index → List Instr
  | .mk _ e _ => expr e ++ [.op .add]

def call : Call → List Instr
  | .mk recv name _ as _ =>
    (receiver ctx recv).2.2 ++ args as ++
      [.call (qualifiedName (receiver ctx recv).1 name.name)
        (as.length + (receiver ctx recv).2.1)]

def args : Args → List Instr
  | .none => []
  | .some head tail => expr head ++ moreArgs tail

def moreArgs : MoreArgs → List Instr
  | .nil => []
  | .cons _ e rest => expr e ++ moreArgs rest

end

end Code

namespace Context

variable {ctx : Context} {out out' : Output}

theorem named_eq (ctx : Context) (value : NamedConstant) (out : Output) :
    ctx.named value out = out.append (Code.named ctx value) := by
  cases value <;> simp [named, Code.named]

theorem characters_eq {span : Span} {cs : List Char} (h : characters span cs out = .ok out') :
    out' = out.append (Code.characters cs) := by
  induction cs generalizing out with
  | nil =>
    obtain rfl : out = out' := by simpa [characters] using h
    simp [Code.characters]
  | cons c cs ih =>
    simp only [characters] at h
    split at h
    · rw [ih h]
      simp [Code.characters]
    · simp at h

theorem string_eq {value : String} {span : Span} (h : string value span out = .ok out') :
    out' = out.append (Code.string value) := by
  simp only [string] at h
  split at h
  · rw [characters_eq h]
    simp [Code.string]
  · simp at h

theorem receiver_eq (ctx : Context) (recv : Option (Ident × Span)) (out : Output) :
    ctx.receiver recv out = ((Code.receiver ctx recv).1, (Code.receiver ctx recv).2.1,
      out.append (Code.receiver ctx recv).2.2) := by
  cases recv with
  | none => simp [receiver, Code.receiver]
  | some object =>
    cases hv : ctx.scope.lookup object.1.name <;> simp [receiver, Code.receiver, hv]

theorem resolve_eq_ok {name : Ident} {v : Variable} (h : ctx.resolve name out = .ok v) :
    ctx.scope.lookup name.name = some v := by
  simp only [resolve] at h
  split at h
  · rename_i v' hv
    obtain rfl : v' = v := by simpa using h
    exact hv
  · simp at h

theorem push_of_resolve {name : Ident} {v : Variable} (h : ctx.resolve name out = .ok v) :
    Code.push ctx name = v.push := by
  simp [Code.push, resolve_eq_ok h]

mutual

theorem expr_eq : ∀ (e : Expr) {out out' : Output}, ctx.expr e out = .ok out' →
    out' = out.append (Code.expr ctx e)
  | .mk head tail, out, out', h => by
    obtain ⟨out₁, h₁, h₂⟩ := bind_eq_ok_iff.1 h
    rw [opTerms_eq tail h₂, term_eq head h₁]
    simp [Code.expr]

theorem opTerms_eq : ∀ (xs : OpTerms) {out out' : Output}, ctx.opTerms xs out = .ok out' →
    out' = out.append (Code.opTerms ctx xs)
  | .nil, out, out', h => by
    obtain rfl : out = out' := by simpa [opTerms] using h
    simp [Code.opTerms]
  | .cons op _ t rest, out, out', h => by
    obtain ⟨out₁, h₁, h₂⟩ := bind_eq_ok_iff.1 h
    rw [opTerms_eq rest h₂, term_eq t h₁]
    simp [Code.opTerms]

theorem term_eq : ∀ (t : Term) {out out' : Output}, ctx.term t out = .ok out' →
    out' = out.append (Code.term ctx t)
  | .integer value _, out, out', h => by
    obtain rfl : out.emit _ = out' := by simpa [term] using h
    simp [Code.term]
  | .string value span, _, _, h => string_eq h
  | .named value _, out, out', h => by
    obtain rfl : ctx.named value out = out' := by simpa [term] using h
    exact named_eq ctx value out
  | .paren _ e _, _, _, h => expr_eq e h
  | .unary op _ t, out, out', h => by
    obtain ⟨out₁, h₁, h₂⟩ := bind_eq_ok_iff.1 h
    obtain rfl : out₁.emit op.instr = out' := by simpa [pure, Except.pure] using h₂
    rw [term_eq t h₁]
    simp [Code.term]
  | .var name, out, out', h => by
    obtain ⟨v, h₁, h₂⟩ := bind_eq_ok_iff.1 h
    obtain rfl : out.emit v.push = out' := by simpa [pure, Except.pure] using h₂
    simp [Code.term, push_of_resolve h₁]
  | .element name index, out, out', h => by
    obtain ⟨v, h₁, h₂⟩ := bind_eq_ok_iff.1 h
    obtain ⟨out₁, h₃, h₄⟩ := bind_eq_ok_iff.1 h₂
    obtain rfl : (out₁.emit (.pop .pointer 1)).emit (.push .that 0) = out' := by
      simpa [pure, Except.pure] using h₄
    rw [offset_eq index h₃]
    simp [Code.term, push_of_resolve h₁]
  | .call c, _, _, h => call_eq c h

theorem offset_eq : ∀ (index : Index) {out out' : Output}, ctx.offset index out = .ok out' →
    out' = out.append (Code.offset ctx index)
  | .mk _ e _, out, out', h => by
    obtain ⟨out₁, h₁, h₂⟩ := bind_eq_ok_iff.1 h
    obtain rfl : out₁.emit (.op .add) = out' := by simpa [pure, Except.pure] using h₂
    rw [expr_eq e h₁]
    simp [Code.offset]

theorem call_eq : ∀ (c : Call) {out out' : Output}, ctx.call c out = .ok out' →
    out' = out.append (Code.call ctx c)
  | .mk recv name _ as _, out, out', h => by
    simp only [call, receiver_eq] at h
    obtain ⟨out₁, h₁, h₂⟩ := bind_eq_ok_iff.1 h
    split at h₂
    · obtain rfl : out₁.emit _ = out' := by simpa [pure, Except.pure] using h₂
      rw [args_eq as h₁]
      simp [Code.call]
    · simp at h₂

theorem args_eq : ∀ (as : Args) {out out' : Output}, ctx.args as out = .ok out' →
    out' = out.append (Code.args ctx as)
  | .none, out, out', h => by
    obtain rfl : out = out' := by simpa [args] using h
    simp [Code.args]
  | .some head tail, out, out', h => by
    obtain ⟨out₁, h₁, h₂⟩ := bind_eq_ok_iff.1 h
    rw [moreArgs_eq tail h₂, expr_eq head h₁]
    simp [Code.args]

theorem moreArgs_eq : ∀ (as : MoreArgs) {out out' : Output}, ctx.moreArgs as out = .ok out' →
    out' = out.append (Code.moreArgs ctx as)
  | .nil, out, out', h => by
    obtain rfl : out = out' := by simpa [moreArgs] using h
    simp [Code.moreArgs]
  | .cons _ e rest, out, out', h => by
    obtain ⟨out₁, h₁, h₂⟩ := bind_eq_ok_iff.1 h
    rw [moreArgs_eq rest h₂, expr_eq e h₁]
    simp [Code.moreArgs]

end

end Context

/-! ### Statements -/

mutual

/-- The number of branches and loops, each of which has a number for its labels. -/
def Stmt.labelCount : Stmt → Nat
  | .assign _ _ _ _ _ _ => 0
  | .branch _ _ _ _ yes no => 1 + no.labelCount + yes.labelCount
  | .loop _ _ _ _ body => 1 + body.labelCount
  | .perform _ _ _ => 0
  | .finish _ _ _ => 0

def Otherwise.labelCount : Otherwise → Nat
  | .none => 0
  | .some _ block => block.labelCount

def Block.labelCount : Block → Nat
  | .mk _ body _ => body.labelCount

def Stmts.labelCount : Stmts → Nat
  | .nil => 0
  | .cons s rest => s.labelCount + rest.labelCount

end

namespace Code

variable (ctx : Context)

/-- The instruction that pops a variable. -/
def pop (name : Ident) : Instr :=
  (ctx.scope.lookup name.name).elim (.pop .temp 0) Variable.pop

mutual

/-- The code of a statement, when `n` is the number of the next label. -/
def stmt (n : Nat) : Stmt → List Instr
  | .assign _ target none _ value _ => expr ctx value ++ [pop ctx target]
  | .assign _ target (some index) _ value _ =>
    push ctx target :: (offset ctx index ++ .pop .temp 0 ::
      (expr ctx value ++ [.push .temp 0, .pop .pointer 1, .pop .that 0]))
  | .branch _ _ condition _ yes no =>
    expr ctx condition ++ .ifGoto ⟨.holds, n⟩ :: (otherwise (n + 1) no ++
      .goto ⟨.branchEnd, n⟩ :: .label ⟨.holds, n⟩ ::
        (block (n + 1 + no.labelCount) yes ++ [.label ⟨.branchEnd, n⟩]))
  | .loop _ _ condition _ body =>
    .label ⟨.condition, n⟩ :: (expr ctx condition ++ .ifGoto ⟨.holds, n⟩ :: .goto ⟨.loopEnd, n⟩ ::
      .label ⟨.holds, n⟩ :: (block (n + 1) body ++
        [.goto ⟨.condition, n⟩, .label ⟨.loopEnd, n⟩]))
  | .perform _ c _ => call ctx c ++ [.pop .temp 0]
  | .finish _ none _ => [.push .constant 0, .ret]
  | .finish _ (some value) _ => expr ctx value ++ [.ret]

def otherwise (n : Nat) : Otherwise → List Instr
  | .none => []
  | .some _ b => block n b

def block (n : Nat) : Block → List Instr
  | .mk _ body _ => stmts n body

def stmts (n : Nat) : Stmts → List Instr
  | .nil => []
  | .cons s rest => stmt n s ++ stmts (n + s.labelCount) rest

end

end Code

namespace Context

variable {ctx : Context}

theorem pop_of_resolve {name : Ident} {v : Variable} {out : Output}
    (h : ctx.resolve name out = .ok v) : Code.pop ctx name = v.pop := by
  simp [Code.pop, resolve_eq_ok h]

/-- What is emitted for a branch, part by part. -/
theorem branch_eq_ok {keyword left right : Span} {condition : Expr} {yes : Block} {no : Otherwise}
    {out out' : Output}
    (h : ctx.stmt (.branch keyword left condition right yes no) out = .ok out') :
    ∃ out₁ out₂ out₃, ctx.expr condition (out.number 1) = .ok out₁ ∧
      ctx.otherwise no (out₁.append [.ifGoto ⟨.holds, out.labels⟩]) = .ok out₂ ∧
      ctx.block yes (out₂.append [.goto ⟨.branchEnd, out.labels⟩, .label ⟨.holds, out.labels⟩]) =
        .ok out₃ ∧
      out' = out₃.append [.label ⟨.branchEnd, out.labels⟩] := by
  simp only [stmt, Output.nextLabel_eq, Output.emit_eq_append, Output.append_append] at h
  obtain ⟨out₁, h₁, h₂⟩ := bind_eq_ok_iff.1 h
  obtain ⟨out₂, h₃, h₄⟩ := bind_eq_ok_iff.1 h₂
  obtain ⟨out₃, h₅, h₆⟩ := bind_eq_ok_iff.1 h₄
  exact ⟨out₁, out₂, out₃, h₁, h₃, h₅, (Except.ok.inj h₆).symm⟩

/-- What is emitted for a loop, part by part. -/
theorem loop_eq_ok {keyword left right : Span} {condition : Expr} {body : Block}
    {out out' : Output} (h : ctx.stmt (.loop keyword left condition right body) out = .ok out') :
    ∃ out₁ out₂,
      ctx.expr condition ((out.number 1).append [.label ⟨.condition, out.labels⟩]) = .ok out₁ ∧
      ctx.block body (out₁.append [.ifGoto ⟨.holds, out.labels⟩, .goto ⟨.loopEnd, out.labels⟩,
        .label ⟨.holds, out.labels⟩]) = .ok out₂ ∧
      out' = out₂.append [.goto ⟨.condition, out.labels⟩, .label ⟨.loopEnd, out.labels⟩] := by
  simp only [stmt, Output.nextLabel_eq, Output.emit_eq_append, Output.append_append] at h
  obtain ⟨out₁, h₁, h₂⟩ := bind_eq_ok_iff.1 h
  obtain ⟨out₂, h₃, h₄⟩ := bind_eq_ok_iff.1 h₂
  exact ⟨out₁, out₂, h₁, h₃, (Except.ok.inj h₄).symm⟩

mutual

theorem stmt_eq : ∀ (s : Stmt) {out out' : Output}, ctx.stmt s out = .ok out' →
    out' = (out.append (Code.stmt ctx out.labels s)).number s.labelCount
  | .assign _ target none _ value _, out, out', h => by
    obtain ⟨v, h₁, h₂⟩ := bind_eq_ok_iff.1 h
    obtain ⟨out₁, h₃, h₄⟩ := bind_eq_ok_iff.1 h₂
    obtain rfl : out₁.emit v.pop = out' := by simpa [pure, Except.pure] using h₄
    rw [expr_eq value h₃]
    simp [Code.stmt, Stmt.labelCount, pop_of_resolve h₁]
  | .assign _ target (some index) _ value _, out, out', h => by
    obtain ⟨v, h₁, h₂⟩ := bind_eq_ok_iff.1 h
    obtain ⟨out₁, h₃, h₄⟩ := bind_eq_ok_iff.1 h₂
    obtain ⟨out₂, h₅, h₆⟩ := bind_eq_ok_iff.1 h₄
    obtain rfl :
        ((out₂.emit (.push .temp 0)).emit (.pop .pointer 1)).emit (.pop .that 0) = out' := by
      simpa [pure, Except.pure] using h₆
    rw [expr_eq value h₅, offset_eq index h₃]
    simp [Code.stmt, Stmt.labelCount, push_of_resolve h₁]
  | .branch _ _ condition _ yes no, out, out', h => by
    obtain ⟨out₁, out₂, out₃, hcondition, hno, hyes, rfl⟩ := branch_eq_ok h
    obtain rfl := expr_eq condition hcondition
    obtain rfl := otherwise_eq no hno
    obtain rfl := block_eq yes hyes
    simp [Code.stmt, Stmt.labelCount, Nat.add_assoc]
  | .loop _ _ condition _ body, out, out', h => by
    obtain ⟨out₁, out₂, hcondition, hbody, rfl⟩ := loop_eq_ok h
    obtain rfl := expr_eq condition hcondition
    obtain rfl := block_eq body hbody
    simp [Code.stmt, Stmt.labelCount]
  | .perform _ c _, out, out', h => by
    obtain ⟨out₁, h₁, h₂⟩ := bind_eq_ok_iff.1 h
    obtain rfl : out₁.emit (.pop .temp 0) = out' := by simpa [pure, Except.pure] using h₂
    rw [call_eq c h₁]
    simp [Code.stmt, Stmt.labelCount]
  | .finish _ none _, out, out', h => by
    obtain rfl : (out.emit (.push .constant 0)).emit .ret = out' := by simpa [stmt] using h
    simp [Code.stmt, Stmt.labelCount]
  | .finish _ (some value) _, out, out', h => by
    obtain ⟨out₁, h₁, h₂⟩ := bind_eq_ok_iff.1 h
    obtain rfl : out₁.emit .ret = out' := by simpa [pure, Except.pure] using h₂
    rw [expr_eq value h₁]
    simp [Code.stmt, Stmt.labelCount]

theorem otherwise_eq : ∀ (no : Otherwise) {out out' : Output}, ctx.otherwise no out = .ok out' →
    out' = (out.append (Code.otherwise ctx out.labels no)).number no.labelCount
  | .none, out, out', h => by
    obtain rfl : out = out' := by simpa [otherwise] using h
    simp [Code.otherwise, Otherwise.labelCount]
  | .some _ b, _, _, h => block_eq b h

theorem block_eq : ∀ (b : Block) {out out' : Output}, ctx.block b out = .ok out' →
    out' = (out.append (Code.block ctx out.labels b)).number b.labelCount
  | .mk _ body _, _, _, h => stmts_eq body h

theorem stmts_eq : ∀ (body : Stmts) {out out' : Output}, ctx.stmts body out = .ok out' →
    out' = (out.append (Code.stmts ctx out.labels body)).number body.labelCount
  | .nil, out, out', h => by
    obtain rfl : out = out' := by simpa [stmts] using h
    simp [Code.stmts, Stmts.labelCount]
  | .cons s rest, out, out', h => by
    obtain ⟨out₁, h₁, h₂⟩ := bind_eq_ok_iff.1 h
    obtain rfl := stmt_eq s h₁
    obtain rfl := stmts_eq rest h₂
    simp [Code.stmts, Stmts.labelCount]

end

end Context

end Jack
