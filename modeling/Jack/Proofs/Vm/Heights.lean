import Jack.Proofs.Vm.Code

/-!
Heights of the operand stack. A block is gone through from its first instruction to its last, with
the height that each instruction leaves for the next one, jumps taken as if they went on. This says
all there is to say about the stack, since code jumps and is jumped to at height zero only: an
expression adds one operand, whatever the height, and statements start and end with none.
-/

namespace Jack

def ArithOp.arity : ArithOp → Nat
  | neg | not => 1
  | add | sub | eq | gt | lt | and | or => 2

namespace Instr

/-- The number of operands that an instruction takes off the stack. A return takes its result. -/
def takes : Instr → Nat
  | push _ _ | label _ | goto _ | function _ _ => 0
  | pop _ _ | ifGoto _ | ret => 1
  | op o => o.arity
  | call _ n => n

/-- The number of operands that an instruction puts on the stack. -/
def gives : Instr → Nat
  | push _ _ | op _ | call _ _ => 1
  | pop _ _ | label _ | goto _ | ifGoto _ | function _ _ | ret => 0

/-- Whether an instruction of a body may stand where the stack has the given height. -/
def mayStandAt (i : Instr) (height : Nat) : Bool :=
  match i with
  | label _ | goto _ => height = 0
  | ifGoto _ | ret => height = 1
  | function _ _ => false
  | push _ _ | pop _ _ | op _ | call _ _ => i.takes ≤ height

/-- The height behind an instruction of a body, if it may stand at the height before it. -/
def heightAfter? (i : Instr) (height : Nat) : Option Nat :=
  if i.mayStandAt height then some (height - i.takes + i.gives) else none

variable {i : Instr} {h h' : Nat}

theorem mayStandAt_of_heightAfter? (hi : i.heightAfter? h = some h') : i.mayStandAt h = true := by
  unfold heightAfter? at hi
  split at hi
  · assumption
  · simp at hi

theorem takes_le_of_mayStandAt (hi : i.mayStandAt h = true) : i.takes ≤ h := by
  cases i <;> simp only [mayStandAt, decide_eq_true_eq, Bool.false_eq_true] at hi <;>
    simp only [takes] at hi ⊢ <;> omega

theorem heightAfter?_eq (hi : i.heightAfter? h = some h') : h' + i.takes = h + i.gives := by
  have hmay := mayStandAt_of_heightAfter? hi
  have hle := takes_le_of_mayStandAt hmay
  simp only [heightAfter?, hmay, if_true, Option.some.injEq] at hi
  omega

@[simp] theorem heightAfter?_push (s : Segment) (n h : Nat) :
    (push s n).heightAfter? h = some (h + 1) := rfl

@[simp] theorem heightAfter?_pop (s : Segment) (n h : Nat) :
    (pop s n).heightAfter? (h + 1) = some h := by
  simp [heightAfter?, mayStandAt, takes, gives]

@[simp] theorem heightAfter?_call (name : String) (n h : Nat) :
    (call name n).heightAfter? (h + n) = some (h + 1) := by
  simp [heightAfter?, mayStandAt, takes, gives]

@[simp] theorem heightAfter?_op (o : ArithOp) (h : Nat) :
    (op o).heightAfter? (h + o.arity) = some (h + 1) := by
  simp [heightAfter?, mayStandAt, takes, gives]

@[simp] theorem heightAfter?_label (l : Label) : (label l).heightAfter? 0 = some 0 := rfl

@[simp] theorem heightAfter?_goto (l : Label) : (goto l).heightAfter? 0 = some 0 := rfl

@[simp] theorem heightAfter?_ifGoto (l : Label) : (ifGoto l).heightAfter? 1 = some 0 := rfl

@[simp] theorem heightAfter?_ret : ret.heightAfter? 1 = some 0 := rfl

@[simp] theorem heightAfter?_binaryOp (o : BinaryOp) (h : Nat) :
    o.instr.heightAfter? (h + 2) = some (h + 1) := by
  cases o with
  | mul | div => exact heightAfter?_call _ 2 h
  | _ => exact heightAfter?_op _ h

@[simp] theorem heightAfter?_unaryOp (o : UnaryOp) (h : Nat) :
    o.instr.heightAfter? (h + 1) = some (h + 1) := by
  cases o <;> exact heightAfter?_op _ h

end Instr

/-- The height behind a block, if each of its instructions may stand at the height before it. -/
def endHeight? (block : List Instr) (height : Nat) : Option Nat :=
  block.foldlM (fun height i => i.heightAfter? height) height

@[simp] theorem endHeight?_nil (h : Nat) : endHeight? [] h = some h := rfl

@[simp] theorem endHeight?_cons (i : Instr) (block : List Instr) (h : Nat) :
    endHeight? (i :: block) h = (i.heightAfter? h).bind (endHeight? block) := rfl

theorem endHeight?_singleton (i : Instr) (h : Nat) : endHeight? [i] h = i.heightAfter? h := by
  cases hi : i.heightAfter? h <;> simp [hi]

@[simp] theorem endHeight?_append (block₁ block₂ : List Instr) (h : Nat) :
    endHeight? (block₁ ++ block₂) h = (endHeight? block₁ h).bind (endHeight? block₂) :=
  List.foldlM_append

/-! ### Expressions -/

theorem MoreArgs.lengthFrom_eq (as : MoreArgs) (n : Nat) :
    as.lengthFrom n = n + as.lengthFrom 0 := by
  cases as with
  | nil => rfl
  | cons comma e rest =>
    have hn := lengthFrom_eq rest (n + 1)
    have hzero := lengthFrom_eq rest 1
    simp only [MoreArgs.lengthFrom, Nat.zero_add]
    omega

namespace Code

variable {ctx : Context}

@[simp] theorem push_height (name : Ident) (h : Nat) :
    (push ctx name).heightAfter? h = some (h + 1) := by
  cases hv : ctx.scope.lookup name.name <;> simp [push, hv, Variable.push]

@[simp] theorem pop_height (name : Ident) (h : Nat) :
    (pop ctx name).heightAfter? (h + 1) = some h := by
  cases hv : ctx.scope.lookup name.name <;> simp [pop, hv, Variable.pop]

@[simp] theorem this_height (h : Nat) : ctx.this.heightAfter? h = some (h + 1) := by
  unfold Context.this
  split <;> rfl

theorem characters_height (cs : List Char) (h : Nat) :
    endHeight? (characters cs) (h + 1) = some (h + 1) := by
  induction cs with
  | nil => rfl
  | cons c cs ih =>
    have happend := Instr.heightAfter?_call "String.appendChar" 2 h
    simpa [characters, happend] using ih

theorem string_height (value : String) (h : Nat) :
    endHeight? (string value) h = some (h + 1) := by
  have hnew := Instr.heightAfter?_call "String.new" 1 h
  simp [string, hnew, characters_height]

theorem named_height (value : NamedConstant) (h : Nat) :
    endHeight? (named ctx value) h = some (h + 1) := by
  have hneg := Instr.heightAfter?_op .neg h
  cases value <;> simp_all [named, ArithOp.arity]

/-- A receiver is as many operands as it adds to the arguments. -/
theorem receiver_height (recv : Option (Ident × Span)) (h : Nat) :
    endHeight? (receiver ctx recv).2.2 h = some (h + (receiver ctx recv).2.1) := by
  cases recv with
  | none => simp [receiver]
  | some object =>
    cases hv : ctx.scope.lookup object.1.name <;> simp [receiver, hv, Variable.push]

mutual

/-- An expression adds one operand. -/
@[simp] theorem expr_height : ∀ (e : Expr) (h : Nat), endHeight? (expr ctx e) h = some (h + 1)
  | .mk head tail, h => by simp [expr, term_height head, opTerms_height tail]

theorem opTerms_height : ∀ (xs : OpTerms) (h : Nat),
    endHeight? (opTerms ctx xs) (h + 1) = some (h + 1)
  | .nil, _ => rfl
  | .cons op _ t rest, h => by simp [opTerms, term_height t, opTerms_height rest]

theorem term_height : ∀ (t : Term) (h : Nat), endHeight? (term ctx t) h = some (h + 1)
  | .integer _ _, _ => rfl
  | .string value _, h => string_height value h
  | .named value _, h => named_height value h
  | .paren _ e _, h => expr_height e h
  | .unary op _ t, h => by simp [term, term_height t]
  | .var name, h => by simp [term]
  | .element name index, h => by simp [term, offset_height index]
  | .call c, h => call_height c h

/-- An index is added to the operand on top. -/
@[simp] theorem offset_height : ∀ (index : Index) (h : Nat),
    endHeight? (offset ctx index) (h + 1) = some (h + 1)
  | .mk _ e _, h => by
    have hadd := Instr.heightAfter?_op .add h
    simp only [ArithOp.arity] at hadd
    simp [offset, expr_height e, hadd]

@[simp] theorem call_height : ∀ (c : Call) (h : Nat), endHeight? (call ctx c) h = some (h + 1)
  | .mk recv name _ as _, h => by
    have hargs := args_height as (h + (receiver ctx recv).2.1)
    have hcount : h + (receiver ctx recv).2.1 + as.length =
        h + (as.length + (receiver ctx recv).2.1) := by omega
    simp [call, receiver_height, hargs, hcount]

/-- Arguments are as many operands as the call counts. -/
theorem args_height : ∀ (as : Args) (h : Nat),
    endHeight? (args ctx as) h = some (h + as.length)
  | .none, _ => rfl
  | .some head tail, h => by
    rw [args, endHeight?_append, expr_height head, Option.bind_some, moreArgs_height tail,
      Args.length, tail.lengthFrom_eq 1, Nat.add_assoc]

theorem moreArgs_height : ∀ (as : MoreArgs) (h : Nat),
    endHeight? (moreArgs ctx as) h = some (h + as.lengthFrom 0)
  | .nil, _ => rfl
  | .cons _ e rest, h => by
    rw [moreArgs, endHeight?_append, expr_height e, Option.bind_some, moreArgs_height rest,
      MoreArgs.lengthFrom, rest.lengthFrom_eq (0 + 1), Nat.zero_add, Nat.add_assoc]

end

/-! ### Statements -/

mutual

/-- A statement starts and ends without operands. -/
theorem stmt_height : ∀ (s : Stmt) (n : Nat), endHeight? (stmt ctx n s) 0 = some 0
  | .assign _ target none _ value _, n => by
    have hpop : (pop ctx target).heightAfter? 1 = some 0 := pop_height target 0
    simp_all [stmt]
  | .assign _ target (some index) _ value _, n => by
    have hindex : endHeight? (offset ctx index) 1 = some 1 := offset_height index 0
    simp_all [stmt]
  | .branch _ _ condition _ yes no, n => by
    simp [stmt, otherwise_height no, block_height yes]
  | .loop _ _ condition _ body, n => by simp [stmt, block_height body]
  | .perform _ c _, n => by simp [stmt]
  | .finish _ none _, n => rfl
  | .finish _ (some value) _, n => by simp [stmt]

theorem otherwise_height : ∀ (no : Otherwise) (n : Nat), endHeight? (otherwise ctx n no) 0 = some 0
  | .none, _ => rfl
  | .some _ b, n => block_height b n

theorem block_height : ∀ (b : Block) (n : Nat), endHeight? (block ctx n b) 0 = some 0
  | .mk _ body _, n => stmts_height body n

theorem stmts_height : ∀ (body : Stmts) (n : Nat), endHeight? (stmts ctx n body) 0 = some 0
  | .nil, _ => rfl
  | .cons s rest, n => by simp [stmts, stmt_height s, stmts_height rest]

end

end Code

end Jack
