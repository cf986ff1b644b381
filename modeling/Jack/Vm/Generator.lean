import Jack.Vm.Emit

/-!
Code for classes. A generator can compile one class after the other; until it is reset it keeps its
variables and goes on numbering labels. When a class has an error, the code before it stays and
comes before the code of the next class.
-/

namespace Jack

def ClassVarKind.varKind : ClassVarKind → VarKind
  | static => .static
  | field => .field

structure Generator where
  scope : Scope
  output : Output

/-- An error, the generator as it is then, and the number of subroutines begun. -/
structure Failure where
  error : CompileError
  generator : Generator
  begun : Nat

namespace Generator

def empty : Generator := ⟨.empty "", .empty⟩

/-- A declaration that cannot be made, at the name that it is for. -/
def declareError (name : Ident) : ScopeError → CompileError
  | .duplicate _ existing => ⟨.duplicate name.name existing, name.span⟩
  | .overflow kind => ⟨.unsupported (ScopeError.overflow kind).message, name.span⟩

/-- Declares names of one type and kind, in order. The scope before an error comes with it. -/
def declare (type : String) (kind : VarKind) :
    List Ident → Scope → Except (CompileError × Scope) Scope
  | [], scope => .ok scope
  | name :: names, scope =>
    match scope.define name.name type kind with
    | (.ok _, after) => declare type kind names after
    | (.error e, after) => .error (declareError name e, after)

def declareClassVars : List ClassVarDec → Scope → Except (CompileError × Scope) Scope
  | [], scope => .ok scope
  | dec :: decs, scope => do
    let scope ← declare dec.type.name dec.kind.varKind dec.names.toList scope
    declareClassVars decs scope

/-- A method has its object as a first argument that no one declares. -/
def declareThis (sub : Subroutine) (scope : Scope) : Except (CompileError × Scope) Scope :=
  match sub.kind with
  | .method =>
    match scope.define "this" scope.className .argument with
    | (.ok _, after) => .ok after
    | (.error e, after) => .error (⟨.unsupported e.message, sub.name.span⟩, after)
  | _ => .ok scope

def declareParams : List Param → Scope → Except (CompileError × Scope) Scope
  | [], scope => .ok scope
  | p :: ps, scope => do
    let scope ← declare p.type.name .argument [p.name] scope
    declareParams ps scope

def declareVars : List VarDec → Scope → Except (CompileError × Scope) Scope
  | [], scope => .ok scope
  | dec :: decs, scope => do
    let scope ← declare dec.type.name .localVar dec.names.toList scope
    declareVars decs scope

/-- The scope of a subroutine's body, from the scope of the subroutine before. -/
def openScope (sub : Subroutine) (scope : Scope) : Except (CompileError × Scope) Scope := do
  let scope ← declareThis sub scope.startSubroutine
  let scope ← declareParams (sub.params.elim [] Separated.toList) scope
  declareVars sub.body.vars scope

/-- What a subroutine does before its first statement. A constructor makes its object, a method
takes the one that it is called on. -/
def prologue (kind : SubroutineKind) (scope : Scope) : List Instr :=
  match kind with
  | .constructor =>
    [.push .constant (scope.countOf .field), .call "Memory.alloc" 1, .pop .pointer 0]
  | .method => [.push .argument 0, .pop .pointer 0]
  | .function => []

/-- The head of a subroutine's code. -/
def header (sub : Subroutine) (scope : Scope) : List Instr :=
  .function (qualifiedName scope.className sub.name.name) (scope.countOf .localVar)
    :: prologue sub.kind scope

def subroutine (sub : Subroutine) (g : Generator) : Except (CompileError × Generator) Generator :=
  match openScope sub g.scope with
  | .error (e, scope) => .error (e, { g with scope })
  | .ok scope =>
    match Context.stmts ⟨scope, sub.kind⟩ sub.body.statements
        ((header sub scope).foldl Output.emit g.output) with
    | .error stop => .error (stop.error, ⟨scope, stop.output⟩)
    | .ok output => .ok ⟨scope, output⟩

/-- The subroutines of a class, when `begun` of them are done. -/
def subroutines (begun : Nat) : List Subroutine → Generator → Except Failure Generator
  | [], g => .ok g
  | sub :: subs, g =>
    match subroutine sub g with
    | .error (error, g) => .error ⟨error, g, begun + 1⟩
    | .ok g => subroutines (begun + 1) subs g

def classDecl (decl : ClassDecl) (g : Generator) : Except Failure Generator :=
  match declareClassVars decl.vars { g.scope with className := decl.name.name } with
  | .error (error, scope) => .error ⟨error, { g with scope }, 0⟩
  | .ok scope => subroutines 0 decl.subroutines { g with scope }

/-- Compiles a class. The code is taken out of the generator, unless there is an error. -/
def compile (decl : ClassDecl) (g : Generator) : Except CompileError (List Instr) × Generator :=
  match classDecl decl g with
  | .ok g => (.ok g.output.code.toList, { g with output := { g.output with code := #[] } })
  | .error failure => (.error failure.error, failure.generator)

end Generator

end Jack
