import Jack.Vm.Emit
import Jack.Proofs.Vm.Machine

/-!
What expressions and statements mean. An expression has a value and may change the memory through
the calls in it, which are given by `Answers`. Everything is evaluated from left to right, and
operators have no precedence.

Statements that end do so normally or with a result. `Runs` relates the state before to how they end
and to the state then.
-/

namespace Jack

variable {τ : Type}

/-- A method has its object in its first argument as well. -/
def Frame.HoldsThis (frame : Frame) (kind : SubroutineKind) : Prop :=
  kind = .method → frame.args 0 = frame.this

/-! ### Expressions -/

def Variable.value (v : Variable) (frame : Frame) (g : Memory τ) : Word :=
  match v.kind with
  | .static => g.statics v.index
  | .field => g.heap (frame.this + .ofNat 16 v.index)
  | .argument => frame.args v.index
  | .localVar => frame.locals v.index

/-- The value of the variable that a name means. A name that means none counts as zero. -/
def Scope.value (scope : Scope) (frame : Frame) (g : Memory τ) (name : String) : Word :=
  (scope.lookup name).elim 0 fun v => v.value frame g

def NamedConstant.meaning (frame : Frame) : NamedConstant → Word
  | .true => -1
  | .false => 0
  | .null => 0
  | .this => frame.this

def UnaryOp.meaning : UnaryOp → Word → Word
  | .neg, x => -x
  | .not, x => ~~~x

/-- Products and quotients are calls. -/
def BinaryOp.meaning (answer : Answers τ) : BinaryOp → Word → Word → Memory τ → Word × Memory τ
  | .add, x, y, g => (x + y, g)
  | .sub, x, y, g => (x - y, g)
  | .mul, x, y, g => answer "Math.multiply" [x, y] g
  | .div, x, y, g => answer "Math.divide" [x, y] g
  | .and, x, y, g => (x &&& y, g)
  | .or, x, y, g => (x ||| y, g)
  | .lt, x, y, g => (truth (x.toInt < y.toInt), g)
  | .gt, x, y, g => (truth (y.toInt < x.toInt), g)
  | .eq, x, y, g => (truth (x = y), g)

namespace Meaning

variable (scope : Scope) (answer : Answers τ) (frame : Frame)

/-- A new string of the length, to which the characters are appended one by one. -/
def string (value : String) (g : Memory τ) : Word × Memory τ :=
  value.toList.foldl (fun r c => answer "String.appendChar" [r.1, .ofNat 16 c.toNat] r.2)
    (answer "String.new" [.ofNat 16 value.length] g)

mutual

def expr : Expr → Memory τ → Word × Memory τ
  | .mk head tail, g => opTerms tail (term head g)

/-- Goes on from the value and the memory so far. -/
def opTerms : OpTerms → Word × Memory τ → Word × Memory τ
  | .nil, r => r
  | .cons op _ t rest, r =>
    opTerms rest (op.meaning answer r.1 (term t r.2).1 (term t r.2).2)

def term : Term → Memory τ → Word × Memory τ
  | .integer value _, g => (.ofNat 16 value, g)
  | .string value _, g => string answer value g
  | .named value _, g => (value.meaning frame, g)
  | .paren _ e _, g => expr e g
  | .unary op _ t, g => (op.meaning (term t g).1, (term t g).2)
  | .var name, g => (scope.value frame g name.name, g)
  | .element name i, g =>
    -- The base is read before the index is evaluated, the cell afterwards.
    ((index i g).2.heap (scope.value frame g name.name + (index i g).1), (index i g).2)
  | .call c, g => call c g

def index : Index → Memory τ → Word × Memory τ
  | .mk _ e _, g => expr e g

/-- Without a receiver the current object is the first argument, with a variable for a receiver its
value is, read before the other arguments are evaluated. -/
def call : Call → Memory τ → Word × Memory τ
  | .mk none name _ as _, g =>
    answer (qualifiedName scope.className name.name) (frame.this :: (args as g).1) (args as g).2
  | .mk (some (object, _)) name _ as _, g =>
    match scope.lookup object.name with
    | some v =>
      answer (qualifiedName v.type name.name) (v.value frame g :: (args as g).1) (args as g).2
    | none => answer (qualifiedName object.name name.name) (args as g).1 (args as g).2

def args : Args → Memory τ → List Word × Memory τ
  | .none, g => ([], g)
  | .some head tail, g =>
    ((expr head g).1 :: (moreArgs tail (expr head g).2).1, (moreArgs tail (expr head g).2).2)

def moreArgs : MoreArgs → Memory τ → List Word × Memory τ
  | .nil, g => ([], g)
  | .cons _ e rest, g =>
    ((expr e g).1 :: (moreArgs rest (expr e g).2).1, (moreArgs rest (expr e g).2).2)

end

end Meaning

/-! ### Statements -/

/-- What statements act on. -/
structure State where
  frame : Frame
  memory : Memory Unit

namespace State

/-- The state with a new value for a variable. -/
def assign (s : State) (v : Variable) (value : Word) : State :=
  match v.kind with
  | .static => { s with memory.statics := Function.update s.memory.statics v.index value }
  | .field => { s with memory := s.memory.store (s.frame.this + .ofNat 16 v.index) value }
  | .argument => { s with frame.args := Function.update s.frame.args v.index value }
  | .localVar => { s with frame.locals := Function.update s.frame.locals v.index value }

end State

/-- How statements end. -/
inductive Outcome where
  | normal
  | returned (value : Word)
deriving DecidableEq, Repr

def Block.body : Block → Stmts
  | .mk _ body _ => body

def Otherwise.body : Otherwise → Stmts
  | .none => .nil
  | .some _ block => block.body

section

variable (scope : Scope) (answer : Answers Unit)

/-- The value of an expression in a state, and the memory that it leaves. -/
def State.eval (s : State) (e : Expr) : Word × Memory Unit :=
  Meaning.expr scope answer s.frame e s.memory

inductive Runs : Stmts → State → Outcome → State → Prop
  | nil {s : State} : Runs .nil s .normal s
  | assign {keyword target equal value semicolon rest v} {s t : State} {o : Outcome}
      (hv : scope.lookup (Ident.name target) = some v)
      (hrest : Runs rest (State.assign ⟨s.frame, (s.eval scope answer value).2⟩ v
        (s.eval scope answer value).1) o t) :
      Runs (.cons (.assign keyword target none equal value semicolon) rest) s o t
  | assignElement {keyword target index equal value semicolon rest} {s t : State} {o : Outcome}
      {i r : Word × Memory Unit}
      (hi : Meaning.index scope answer s.frame index s.memory = i)
      (hr : Meaning.expr scope answer s.frame value i.2 = r)
      (hrest : Runs rest ⟨s.frame, r.2.store
        (scope.value s.frame s.memory (Ident.name target) + i.1) r.1⟩ o t) :
      Runs (.cons (.assign keyword target (some index) equal value semicolon) rest) s o t
  | branch {keyword left condition right yes no rest} {s s' t : State} {o : Outcome}
      {r : Word × Memory Unit} (hr : s.eval scope answer condition = r)
      (hchosen : Runs (if r.1 = 0 then Otherwise.body no else Block.body yes)
        ⟨s.frame, r.2⟩ .normal s')
      (hrest : Runs rest s' o t) :
      Runs (.cons (.branch keyword left condition right yes no) rest) s o t
  | branchReturn {keyword left condition right yes no rest} {s t : State} {value : Word}
      {r : Word × Memory Unit} (hr : s.eval scope answer condition = r)
      (hchosen : Runs (if r.1 = 0 then Otherwise.body no else Block.body yes)
        ⟨s.frame, r.2⟩ (.returned value) t) :
      Runs (.cons (.branch keyword left condition right yes no) rest) s (.returned value) t
  | loopEnd {keyword left condition right body rest} {s t : State} {o : Outcome} {g : Memory Unit}
      (hr : s.eval scope answer condition = (0, g)) (hrest : Runs rest ⟨s.frame, g⟩ o t) :
      Runs (.cons (.loop keyword left condition right body) rest) s o t
  | loopAgain {keyword left condition right body rest} {s s' t : State} {o : Outcome}
      {r : Word × Memory Unit} (hr : s.eval scope answer condition = r) (hholds : r.1 ≠ 0)
      (hbody : Runs (Block.body body) ⟨s.frame, r.2⟩ .normal s')
      (hagain : Runs (.cons (.loop keyword left condition right body) rest) s' o t) :
      Runs (.cons (.loop keyword left condition right body) rest) s o t
  | loopReturn {keyword left condition right body rest} {s t : State} {value : Word}
      {r : Word × Memory Unit} (hr : s.eval scope answer condition = r) (hholds : r.1 ≠ 0)
      (hbody : Runs (Block.body body) ⟨s.frame, r.2⟩ (.returned value) t) :
      Runs (.cons (.loop keyword left condition right body) rest) s (.returned value) t
  | perform {keyword call semicolon rest} {s t : State} {o : Outcome}
      (hrest : Runs rest ⟨s.frame, (Meaning.call scope answer s.frame call s.memory).2⟩ o t) :
      Runs (.cons (.perform keyword call semicolon) rest) s o t
  | finish {keyword semicolon rest} {s : State} :
      Runs (.cons (.finish keyword none semicolon) rest) s (.returned 0) s
  | finishValue {keyword value semicolon rest} {s : State} :
      Runs (.cons (.finish keyword (some value) semicolon) rest) s
        (.returned (s.eval scope answer value).1) ⟨s.frame, (s.eval scope answer value).2⟩

end

end Jack
