import Jack.Diagnostic
import Jack.Tree.Grammar
import Jack.Vm.Generator

/-!
From the source of a unit to its tree and its code.
-/

namespace Jack

def parseSource (unit source : String) : Except Diagnostic ClassDecl :=
  match tokenize source with
  | .error e => .error (.located unit source (.lexical e))
  | .ok tokens =>
    match parseTokens source tokens with
    | .error e => .error (.located unit source (.syntactic e))
    | .ok decl => .ok decl

def compileSource (unit source : String) : Except Diagnostic (List Instr) := do
  let decl ← parseSource unit source
  match Generator.empty.compile decl with
  | (.ok code, _) => .ok code
  | (.error e, _) => .error (.located unit source (.semantic e))

end Jack
