/-!
Instructions of the stack machine and their text, one to a line.
-/

namespace Jack

inductive Segment where
  | constant | static | this | argument | localVar | pointer | temp | that
deriving DecidableEq, Repr

def Segment.text : Segment → String
  | constant => "constant"
  | static => "static"
  | this => "this"
  | argument => "argument"
  | localVar => "local"
  | pointer => "pointer"
  | temp => "temp"
  | that => "that"

inductive ArithOp where
  | add | sub | neg | eq | gt | lt | and | or | not
deriving DecidableEq, Repr

def ArithOp.text : ArithOp → String
  | add => "add"
  | sub => "sub"
  | neg => "neg"
  | eq => "eq"
  | gt => "gt"
  | lt => "lt"
  | and => "and"
  | or => "or"
  | not => "not"

/-- What a label marks: a loop's condition, the part that runs when a condition holds, the end of a
loop, or the end of a branch. -/
inductive LabelRole where
  | condition | holds | loopEnd | branchEnd
deriving DecidableEq, Repr

def LabelRole.text : LabelRole → String
  | condition => "expression"
  | holds => "true"
  | loopEnd => "false"
  | branchEnd => "end"

structure Label where
  role : LabelRole
  number : Nat
deriving DecidableEq, Repr

/-- The parts of a label's text, in the order in which they are written. -/
def Label.pieces (l : Label) : List String := [l.role.text, ".", l.number.repr]

inductive Instr where
  | push (segment : Segment) (index : Nat)
  | pop (segment : Segment) (index : Nat)
  | op (op : ArithOp)
  | label (label : Label)
  | goto (label : Label)
  | ifGoto (label : Label)
  | function (name : String) (locals : Nat)
  | call (name : String) (args : Nat)
  | ret
deriving DecidableEq, Repr

namespace Instr

/-- The parts of an instruction's text, in the order in which they are written. -/
def pieces : Instr → List String
  | push segment index => ["push ", segment.text, " ", index.repr]
  | pop segment index => ["pop ", segment.text, " ", index.repr]
  | op o => [o.text]
  | label l => "label " :: l.pieces
  | goto l => "goto " :: l.pieces
  | ifGoto l => "if-goto " :: l.pieces
  | function name locals => ["function ", name, " ", locals.repr]
  | call name args => ["call ", name, " ", args.repr]
  | ret => ["return"]

def text (i : Instr) : String := String.join i.pieces

end Instr

/-- The text of a program, a line for each instruction. -/
def render (code : List Instr) : String :=
  code.foldl (fun out i => out ++ i.text ++ "\n") ""

end Jack
