import Jack.Scope
import Jack.Tree.Basic

/-!
Code for expressions and statements.

Code goes to the end of an `Output`, which also numbers the labels. What stops the generation is
reported with the output up to there.
-/

namespace Jack

/-- Why a tree has no code. -/
inductive CompileFault where
  | undefined (name : String)
  | duplicate (name : String) (existing : VarKind)
  | unsupported (reason : String)
deriving DecidableEq, Repr

structure CompileError where
  fault : CompileFault
  span : Span
deriving DecidableEq, Repr

def CompileFault.message : CompileFault → String
  | undefined name => s!"undefined symbol '{name}'"
  | duplicate name existing =>
    s!"duplicate definition, '{name}' is already defined as {existing.text} variable"
  | unsupported reason => s!"unsupported construct: {reason}"

def CompileError.message (e : CompileError) : String := e.fault.message

/-- The largest operand of an instruction. -/
def maxOperand : Nat := 65535

structure Output where
  code : Array Instr
  /-- The number of the next label. -/
  labels : Nat

namespace Output

def empty : Output := ⟨#[], 0⟩

def emit (out : Output) (i : Instr) : Output := { out with code := out.code.push i }

/-- Takes the number of a new label. -/
def nextLabel (out : Output) : Nat × Output := (out.labels, { out with labels := out.labels + 1 })

end Output

/-- An error and the output before it. -/
structure Stop where
  error : CompileError
  output : Output

/-- What code depends on besides the tree: the variables in scope and the kind of subroutine. -/
structure Context where
  scope : Scope
  kind : SubroutineKind

/-- The name under which a subroutine of a class is called. -/
def qualifiedName (className name : String) : String := className ++ "." ++ name

def BinaryOp.instr : BinaryOp → Instr
  | add => .op .add
  | sub => .op .sub
  | mul => .call "Math.multiply" 2
  | div => .call "Math.divide" 2
  | and => .op .and
  | or => .op .or
  | lt => .op .lt
  | gt => .op .gt
  | eq => .op .eq

def UnaryOp.instr : UnaryOp → Instr
  | neg => .op .neg
  | not => .op .not

/-- The number of arguments, added to `n`. -/
def MoreArgs.lengthFrom (n : Nat) : MoreArgs → Nat
  | .nil => n
  | .cons _ _ rest => rest.lengthFrom (n + 1)

def Args.length : Args → Nat
  | .none => 0
  | .some _ rest => rest.lengthFrom 1

namespace Variable

def push (v : Variable) : Instr := .push v.kind.segment v.index

def pop (v : Variable) : Instr := .pop v.kind.segment v.index

end Variable

namespace Context

/-- A method finds its object in its first argument, any other subroutine in the pointer. -/
def this (ctx : Context) : Instr :=
  match ctx.kind with
  | .method => .push .argument 0
  | _ => .push .pointer 0

/-- The variable that a name means. -/
def resolve (ctx : Context) (name : Ident) (out : Output) : Except Stop Variable :=
  match ctx.scope.lookup name.name with
  | some v => .ok v
  | none => .error ⟨⟨.undefined name.name, name.span⟩, out⟩

def named (ctx : Context) (value : NamedConstant) (out : Output) : Output :=
  match value with
  | .true => (out.emit (.push .constant 1)).emit (.op .neg)
  | .false => out.emit (.push .constant 0)
  | .null => out.emit (.push .constant 0)
  | .this => out.emit ctx.this

/-- Appends the characters of a string constant to the string object on the stack. -/
def characters (span : Span) : List Char → Output → Except Stop Output
  | [], out => .ok out
  | c :: cs, out =>
    if c.toNat ≤ maxOperand then
      characters span cs
        ((out.emit (.push .constant c.toNat)).emit (.call "String.appendChar" 2))
    else .error ⟨⟨.unsupported "character does not fit in a word", span⟩, out⟩

def string (value : String) (span : Span) (out : Output) : Except Stop Output :=
  if value.length ≤ maxOperand then
    characters span value.toList
      ((out.emit (.push .constant value.length)).emit (.call "String.new" 1))
  else .error ⟨⟨.unsupported "string constant is too long", span⟩, out⟩

/-- How a call starts: the class that its name is looked up in, the number of arguments that the
receiver makes, and the output with the receiver. -/
def receiver (ctx : Context) (receiver : Option (Ident × Span)) (out : Output) :
    String × Nat × Output :=
  match receiver with
  | none => (ctx.scope.className, 1, out.emit ctx.this)
  | some (name, _) =>
    match ctx.scope.lookup name.name with
    | some v => (v.type, 1, out.emit v.push)
    | none => (name.name, 0, out)

mutual

def expr (ctx : Context) : Expr → Output → Except Stop Output
  | .mk head tail, out => do
    let out ← term ctx head out
    opTerms ctx tail out

def opTerms (ctx : Context) : OpTerms → Output → Except Stop Output
  | .nil, out => .ok out
  | .cons op _ t rest, out => do
    let out ← term ctx t out
    opTerms ctx rest (out.emit op.instr)

def term (ctx : Context) : Term → Output → Except Stop Output
  | .integer value _, out => .ok (out.emit (.push .constant value))
  | .string value span, out => string value span out
  | .named value _, out => .ok (ctx.named value out)
  | .paren _ e _, out => expr ctx e out
  | .unary op _ t, out => do
    let out ← term ctx t out
    return out.emit op.instr
  | .var name, out => do
    let v ← ctx.resolve name out
    return out.emit v.push
  | .element name index, out => do
    let v ← ctx.resolve name out
    let out ← offset ctx index (out.emit v.push)
    return (out.emit (.pop .pointer 1)).emit (.push .that 0)
  | .call c, out => call ctx c out

/-- Adds an index to the base on the stack. -/
def offset (ctx : Context) : Index → Output → Except Stop Output
  | .mk _ e _, out => do
    let out ← expr ctx e out
    return out.emit (.op .add)

/-- A call of a subroutine of the class without a receiver, of a method of a variable's class, or of
a function of the class that is named. -/
def call (ctx : Context) : Call → Output → Except Stop Output
  | .mk recv name _ as _, out => do
    let (className, hidden, out) := ctx.receiver recv out
    let out ← args ctx as out
    let count := as.length + hidden
    if count ≤ maxOperand then
      return out.emit (.call (qualifiedName className name.name) count)
    else .error ⟨⟨.unsupported "too many call arguments", name.span⟩, out⟩

def args (ctx : Context) : Args → Output → Except Stop Output
  | .none, out => .ok out
  | .some head tail, out => do
    let out ← expr ctx head out
    moreArgs ctx tail out

def moreArgs (ctx : Context) : MoreArgs → Output → Except Stop Output
  | .nil, out => .ok out
  | .cons _ e rest, out => do
    let out ← expr ctx e out
    moreArgs ctx rest out

end

mutual

def stmt (ctx : Context) : Stmt → Output → Except Stop Output
  | .assign _ target none _ value _, out => do
    let v ← ctx.resolve target out
    let out ← expr ctx value out
    return out.emit v.pop
  | .assign _ target (some index) _ value _, out => do
    let v ← ctx.resolve target out
    let out ← offset ctx index (out.emit v.push)
    -- The value may use `that`, so the address waits in `temp`.
    let out ← expr ctx value (out.emit (.pop .temp 0))
    return ((out.emit (.push .temp 0)).emit (.pop .pointer 1)).emit (.pop .that 0)
  | .branch _ _ condition _ yes no, out => do
    let (n, out) := out.nextLabel
    let out ← expr ctx condition out
    let out ← otherwise ctx no (out.emit (.ifGoto ⟨.holds, n⟩))
    let out ← block ctx yes ((out.emit (.goto ⟨.branchEnd, n⟩)).emit (.label ⟨.holds, n⟩))
    return out.emit (.label ⟨.branchEnd, n⟩)
  | .loop _ _ condition _ body, out => do
    let (n, out) := out.nextLabel
    let out ← expr ctx condition (out.emit (.label ⟨.condition, n⟩))
    let out ← block ctx body
      (((out.emit (.ifGoto ⟨.holds, n⟩)).emit (.goto ⟨.loopEnd, n⟩)).emit (.label ⟨.holds, n⟩))
    return (out.emit (.goto ⟨.condition, n⟩)).emit (.label ⟨.loopEnd, n⟩)
  | .perform _ c _, out => do
    let out ← call ctx c out
    return out.emit (.pop .temp 0)
  | .finish _ none _, out => .ok ((out.emit (.push .constant 0)).emit .ret)
  | .finish _ (some value) _, out => do
    let out ← expr ctx value out
    return out.emit .ret

def otherwise (ctx : Context) : Otherwise → Output → Except Stop Output
  | .none, out => .ok out
  | .some _ b, out => block ctx b out

def block (ctx : Context) : Block → Output → Except Stop Output
  | .mk _ body _, out => stmts ctx body out

def stmts (ctx : Context) : Stmts → Output → Except Stop Output
  | .nil, out => .ok out
  | .cons s rest, out => do
    let out ← stmt ctx s out
    stmts ctx rest out

end

end Context

end Jack
