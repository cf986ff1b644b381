import Mathlib.Logic.Function.Basic
import Mathlib.Logic.Relation
import Jack.Vm.Instr

/-!
The stack machine while it runs one subroutine. Words have sixteen bits, and true is the word of all
ones. A call is one step: it takes its arguments off the stack and puts its result there. What it
does otherwise is given from outside, but the caller's locals, arguments, object and the stack below
the arguments are its own.
-/

namespace Jack

abbrev Word := BitVec 16

def truth (b : Bool) : Word := if b then -1 else 0

/-- What subroutines share: the heap, the static variables, and `rest`, which is the temp segment on
a machine and may be nothing elsewhere. -/
structure Memory (τ : Type) where
  heap : Word → Word
  statics : Nat → Word
  rest : τ

/-- The memory with a new value in a cell of the heap. -/
def Memory.store {τ : Type} (g : Memory τ) (address value : Word) : Memory τ :=
  { g with heap := Function.update g.heap address value }

/-- What a call of a subroutine has for itself. -/
structure Frame where
  locals : Nat → Word
  args : Nat → Word
  this : Word

/-- What a call gives, for the name of the subroutine and the arguments: the result, and the memory
afterwards. -/
def Answers (τ : Type) : Type := String → List Word → Memory τ → Word × Memory τ

abbrev Temp := Nat → Word

/-- How calls act on a machine. What they leave in the second pointer is up to them. -/
structure Calls where
  answer : Answers Temp
  that : String → List Word → Memory Temp → Word → Word

structure Machine where
  frame : Frame
  memory : Memory Temp
  that : Word
  /-- The operands, the top of the stack first. -/
  stack : List Word

namespace Machine

def read (m : Machine) : Segment → Nat → Option Word
  | .constant, i => some (.ofNat 16 i)
  | .static, i => some (m.memory.statics i)
  | .this, i => some (m.memory.heap (m.frame.this + .ofNat 16 i))
  | .argument, i => some (m.frame.args i)
  | .localVar, i => some (m.frame.locals i)
  | .pointer, 0 => some m.frame.this
  | .pointer, 1 => some m.that
  | .pointer, _ => none
  | .temp, i => some (m.memory.rest i)
  | .that, i => some (m.memory.heap (m.that + .ofNat 16 i))

def write (m : Machine) (value : Word) : Segment → Nat → Option Machine
  | .constant, _ => none
  | .static, i =>
    some { m with memory.statics := Function.update m.memory.statics i value }
  | .this, i =>
    some { m with memory := m.memory.store (m.frame.this + .ofNat 16 i) value }
  | .argument, i => some { m with frame.args := Function.update m.frame.args i value }
  | .localVar, i => some { m with frame.locals := Function.update m.frame.locals i value }
  | .pointer, 0 => some { m with frame.this := value }
  | .pointer, 1 => some { m with that := value }
  | .pointer, _ => none
  | .temp, i => some { m with memory.rest := Function.update m.memory.rest i value }
  | .that, i => some { m with memory := m.memory.store (m.that + .ofNat 16 i) value }

end Machine

/-- The stack after an arithmetic or logical instruction. Comparisons are signed. -/
def ArithOp.onStack : ArithOp → List Word → Option (List Word)
  | add, y :: x :: rest => some ((x + y) :: rest)
  | sub, y :: x :: rest => some ((x - y) :: rest)
  | neg, x :: rest => some (-x :: rest)
  | eq, y :: x :: rest => some (truth (x == y) :: rest)
  | gt, y :: x :: rest => some (truth (y.slt x) :: rest)
  | lt, y :: x :: rest => some (truth (x.slt y) :: rest)
  | and, y :: x :: rest => some ((x &&& y) :: rest)
  | or, y :: x :: rest => some ((x ||| y) :: rest)
  | not, x :: rest => some (~~~x :: rest)
  | _, _ => none

namespace Machine

/-- An instruction that goes on with the next one, if it is one and its operands are there. -/
def exec? (calls : Calls) (m : Machine) : Instr → Option Machine
  | .push segment i => (m.read segment i).map fun value => { m with stack := value :: m.stack }
  | .pop segment i =>
    match m.stack with
    | [] => none
    | value :: rest => { m with stack := rest }.write value segment i
  | .op o => (o.onStack m.stack).map fun stack => { m with stack }
  | .label _ => some m
  | .call name n =>
    if n ≤ m.stack.length then
      let args := (m.stack.take n).reverse
      some { m with
        memory := (calls.answer name args m.memory).2
        that := calls.that name args m.memory m.that
        stack := (calls.answer name args m.memory).1 :: m.stack.drop n }
    else none
  | .goto _ | .ifGoto _ | .function _ _ | .ret => none

/-- Code without jumps, from its first instruction to behind its last. -/
def runBlock (calls : Calls) : List Instr → Machine → Option Machine
  | [], m => some m
  | i :: block, m => (m.exec? calls i).bind (runBlock calls block)

theorem runBlock_append (calls : Calls) (block₁ block₂ : List Instr) (m : Machine) :
    runBlock calls (block₁ ++ block₂) m =
      (runBlock calls block₁ m).bind (runBlock calls block₂) := by
  induction block₁ generalizing m with
  | nil => rfl
  | cons i block ih =>
    rw [List.cons_append, runBlock, runBlock, Option.bind_assoc]
    exact congrArg _ (funext ih)

end Machine

/-- A machine and the place in the code of the instruction that comes next. -/
structure Config where
  pc : Nat
  machine : Machine

/-- The place of a label in the code of a subroutine. -/
def labelIndex? (code : List Instr) (l : Label) : Option Nat := code.findIdx? (· = .label l)

/-- One step in the code of a subroutine. There is none from a return, behind the end, or where an
operand or a label is missing. -/
def step (calls : Calls) (code : List Instr) (c : Config) : Option Config :=
  match code[c.pc]? with
  | none => none
  | some (.goto l) => (labelIndex? code l).map fun pc => ⟨pc, c.machine⟩
  | some (.ifGoto l) =>
    match c.machine.stack with
    | [] => none
    | value :: rest =>
      let m := { c.machine with stack := rest }
      if value = 0 then some ⟨c.pc + 1, m⟩ else (labelIndex? code l).map fun pc => ⟨pc, m⟩
  | some i => (c.machine.exec? calls i).map fun m => ⟨c.pc + 1, m⟩

/-- The machine gets from one place to the other, in any number of steps. -/
def Reaches (calls : Calls) (code : List Instr) : Config → Config → Prop :=
  Relation.ReflTransGen fun c c' => step calls code c = some c'

namespace Reaches

variable {calls : Calls} {code : List Instr} {c c₁ c₂ : Config}

theorem refl (c : Config) : Reaches calls code c c := Relation.ReflTransGen.refl

theorem trans (h₁ : Reaches calls code c c₁) (h₂ : Reaches calls code c₁ c₂) :
    Reaches calls code c c₂ := Relation.ReflTransGen.trans h₁ h₂

theorem single (h : step calls code c = some c₁) : Reaches calls code c c₁ :=
  Relation.ReflTransGen.single h

theorem toPc {pc pc' : Nat} {m : Machine} (h : Reaches calls code c ⟨pc, m⟩) (hpc : pc = pc') :
    Reaches calls code c ⟨pc', m⟩ := hpc ▸ h

end Reaches

theorem step_of_exec? {calls : Calls} {code : List Instr} {pc : Nat} {i : Instr} {m m' : Machine}
    (hi : code[pc]? = some i) (h : m.exec? calls i = some m') :
    step calls code ⟨pc, m⟩ = some ⟨pc + 1, m'⟩ := by
  cases i <;> simp_all [step, Machine.exec?]

/-- Code without jumps runs the same wherever it stands. -/
theorem reaches_of_runBlock {calls : Calls} {block : List Instr} {m m' : Machine}
    (h : Machine.runBlock calls block m = some m') (front back : List Instr) :
    Reaches calls (front ++ block ++ back) ⟨front.length, m⟩
      ⟨front.length + block.length, m'⟩ := by
  induction block generalizing front m with
  | nil =>
    obtain rfl : m = m' := by simpa [Machine.runBlock] using h
    exact .refl _
  | cons i block ih =>
    obtain ⟨m₁, hi, hrest⟩ := Option.bind_eq_some_iff.1 h
    have hstep : step calls (front ++ i :: block ++ back) ⟨front.length, m⟩ =
        some ⟨front.length + 1, m₁⟩ := step_of_exec? (by simp) hi
    have htail := ih hrest (front ++ [i])
    simp only [List.append_assoc, List.cons_append, List.nil_append, List.length_append,
      List.length_cons, List.length_nil] at htail ⊢
    refine (Reaches.single (by simpa using hstep)).trans ?_
    rw [show front.length + (block.length + 1) = front.length + 1 + block.length by omega]
    exact htail

end Jack
