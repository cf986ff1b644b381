import Jack.Command.Host
import Jack.Command.Path
import Jack.Compile
import Jack.Listing

/-!
What is done for one unit. The source alone decides which files are written and what is reported; a
plan says so, step by step, and is then carried out up to the first failure.
-/

namespace Jack

inductive Step where
  | report (notice : Notice)
  /-- Writes a file, and reports it if that went well. -/
  | write (path contents : String) (notice : Notice)
  | fail (failure : UnitFailure)
deriving DecidableEq, Repr

/-- The path of an output: named after the unit, and next to it if there is no other directory. -/
def outputPath (settings : Settings) (path suffix : String) : String :=
  Path.join (settings.outDir.getD ((Path.parent? path).getD ".")) (Path.stem path ++ suffix)

namespace Plan

def reject (path source : String) (cause : Cause) : List Step :=
  [.fail (.diagnostic (.located path source cause))]

/-- A listing in a file of its own. -/
def listing (settings : Settings) (path suffix : String) (contents : Option String) : List Step :=
  let out := outputPath settings path suffix
  [.write out (contents.getD "") (.listed out)]

def tokens (settings : Settings) (path source : String) (ts : List Token) : List Step :=
  if settings.emitTokens then
    .report (.lexed ts.length) :: listing settings path "T.xml" (listTokens? source ts)
  else []

/-- A class should be named as its file. -/
def className (path : String) (decl : ClassDecl) : List Step :=
  if decl.name.name = Path.stem path then []
  else [.report (.misnamed path decl.name.name (Path.stem path))]

def tree (settings : Settings) (path source : String) (decl : ClassDecl) : List Step :=
  if settings.emitTree then listing settings path ".xml" (listTree? source decl) else []

/-- The class and those subroutines that are reached. -/
def generating (decl : ClassDecl) (reached : List Subroutine) : List Step :=
  .report (.generatingClass decl.name.name) :: reached.map fun sub =>
    .report (.generatingSubroutine (qualifiedName decl.name.name sub.name.name))

def code (settings : Settings) (path source : String) (decl : ClassDecl) : List Step :=
  match Generator.empty.classDecl decl with
  | .error failure =>
    generating decl (decl.subroutines.take failure.begun)
      ++ reject path source (.semantic failure.error)
  | .ok g =>
    let out := outputPath settings path ".vm"
    generating decl decl.subroutines
      ++ [.write out (render g.output.code.toList) (.written g.output.code.size out)]

/-- What comes after the listing of the tokens: the tree, its listing, and the code. -/
def parsed (settings : Settings) (path source : String) (ts : List Token) : List Step :=
  .report (.lexing path) :: .report (.lexed ts.length) :: .report (.parsing path ts.length) ::
    match parseTokens source ts with
    | .error e => reject path source (.syntactic e)
    | .ok decl =>
      className path decl ++ tree settings path source decl ++ code settings path source decl

end Plan

/-- The steps for a unit. -/
def plan (settings : Settings) (path source : String) : List Step :=
  .report (.compiling path) ::
    match tokenize source with
    | .error e =>
      (if settings.emitTokens then [] else [.report (.lexing path)])
        ++ Plan.reject path source (.lexical e)
    | .ok ts => Plan.tokens settings path source ts ++ Plan.parsed settings path source ts

variable {m : Type → Type} [Monad m] [Host m]

/-- Carries steps out, and returns why the rest of them is not. -/
def execute : List Step → m (Option UnitFailure)
  | [] => pure none
  | .report notice :: steps => do
    Host.report notice
    execute steps
  | .write path contents notice :: steps => do
    match ← Host.write path contents with
    | .ok () =>
      Host.report notice
      execute steps
    | .error e => pure (some (.file path e))
  | .fail failure :: _ => pure (some failure)

def compileUnit (settings : Settings) (path : String) : m (Option UnitFailure) := do
  match ← readText path with
  | .error e => pure (some (.file path e))
  | .ok source => execute (plan settings path source)

/-- Compiles units and reports the failures. Returns how many there were. -/
def compileAll (settings : Settings) : List String → m Nat
  | [] => pure 0
  | path :: paths => do
    match ← compileUnit settings path with
    | none => compileAll settings paths
    | some failure =>
      Host.report (.failed failure)
      return (← compileAll settings paths) + 1

end Jack
