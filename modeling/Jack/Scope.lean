import Std.Data.HashMap
import Jack.Vm.Instr

/-!
The variables in scope, at two levels: those of the class, and those of the subroutine, which hide
the former. A variable's index counts the variables of its kind before it.
-/

namespace Jack

inductive VarKind where
  | static | field | argument | localVar
deriving DecidableEq, Repr

/-- Where a variable is declared. -/
inductive Level where
  | classLevel | subroutineLevel
deriving DecidableEq, Repr

namespace VarKind

def text : VarKind → String
  | static => "static"
  | field => "field"
  | argument => "argument"
  | localVar => "local"

def level : VarKind → Level
  | static | field => .classLevel
  | argument | localVar => .subroutineLevel

def segment : VarKind → Segment
  | static => .static
  | field => .this
  | argument => .argument
  | localVar => .localVar

/-- Kinds in the order of their declaration in a class. -/
def rank : VarKind → Nat
  | static => 0
  | field => 1
  | argument => 2
  | localVar => 3

end VarKind

structure Variable where
  name : String
  type : String
  kind : VarKind
  index : Nat
deriving DecidableEq, Repr

inductive ScopeError where
  /-- The name is taken at its level, by a variable of the given kind. -/
  | duplicate (name : String) (existing : VarKind)
  | overflow (kind : VarKind)
deriving DecidableEq, Repr

def ScopeError.message : ScopeError → String
  | duplicate name existing => s!"'{name}' is already defined as {existing.text} variable"
  | overflow kind => s!"too many {kind.text} variables"

/-- The number of variables of each kind. -/
structure Counts where
  static : Nat
  field : Nat
  argument : Nat
  localVar : Nat
deriving DecidableEq, Repr

namespace Counts

def zero : Counts := ⟨0, 0, 0, 0⟩

def get (n : Counts) : VarKind → Nat
  | .static => n.static
  | .field => n.field
  | .argument => n.argument
  | .localVar => n.localVar

def increment (n : Counts) : VarKind → Counts
  | .static => { n with static := n.static + 1 }
  | .field => { n with field := n.field + 1 }
  | .argument => { n with argument := n.argument + 1 }
  | .localVar => { n with localVar := n.localVar + 1 }

end Counts

/-- The most variables of one kind. -/
def maxVariables : Nat := 65535

structure Scope where
  className : String
  classVars : Std.HashMap String Variable
  subroutineVars : Std.HashMap String Variable
  counts : Counts

namespace Scope

def empty (className : String) : Scope := ⟨className, ∅, ∅, .zero⟩

def varsAt (scope : Scope) : Level → Std.HashMap String Variable
  | .classLevel => scope.classVars
  | .subroutineLevel => scope.subroutineVars

/-- The variable that a name means. -/
def lookup (scope : Scope) (name : String) : Option Variable :=
  match scope.subroutineVars[name]? with
  | some v => some v
  | none => scope.classVars[name]?

def countOf (scope : Scope) (kind : VarKind) : Nat := scope.counts.get kind

/-- Adds an entry at its level and counts it. -/
def insert (scope : Scope) (v : Variable) : Scope :=
  match v.kind.level, scope with
  | .classLevel, ⟨className, classVars, subroutineVars, counts⟩ =>
    ⟨className, classVars.insert v.name v, subroutineVars, counts.increment v.kind⟩
  | .subroutineLevel, ⟨className, classVars, subroutineVars, counts⟩ =>
    ⟨className, classVars, subroutineVars.insert v.name v, counts.increment v.kind⟩

/-- What keeps a name from being declared: first that it is taken, then that its kind is full. -/
def obstacle? (scope : Scope) (name : String) (kind : VarKind) : Option ScopeError :=
  match (scope.varsAt kind.level)[name]? with
  | some v => some (.duplicate name v.kind)
  | none => if scope.countOf kind < maxVariables then none else some (.overflow kind)

/-- Declares a variable, if nothing keeps it from being declared. -/
def define (scope : Scope) (name type : String) (kind : VarKind) : Except ScopeError Nat × Scope :=
  match scope.obstacle? name kind with
  | some e => (.error e, scope)
  | none =>
    let index := scope.countOf kind
    (.ok index, scope.insert ⟨name, type, kind, index⟩)

/-- Forgets the variables of the subroutine before. -/
def startSubroutine (scope : Scope) : Scope :=
  { scope with
    subroutineVars := ∅
    counts := { scope.counts with argument := 0, localVar := 0 } }

/-- Forgets all variables and the class, so that another class can come. -/
def reset (_ : Scope) : Scope := .empty ""

end Scope

end Jack
