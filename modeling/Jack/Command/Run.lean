import Jack.Command.Configuration
import Jack.Command.Unit

/-!
A run of the command: options, configuration, output directory, units, and then their compilation.
-/

namespace Jack

/-- Why a run ends before any unit is compiled. -/
inductive StartError where
  | file (e : FileError)
  | configuration
  | outDir (e : FileError)
  | noSource (path : String)
deriving DecidableEq, Repr

def StartError.text : StartError → String
  | file e => "Error: AppError \x7b kind: Io(" ++ e.debugText ++ ") \x7d\n"
  | configuration => "Error: AppError \x7b kind: Config("
  | outDir e => "Error: " ++ e.debugText ++ "\n"
  | noSource path => "Error: AppError \x7b kind: InvalidInput(" ++ quoteText path ++ ") \x7d\n"

variable {m : Type → Type} [Monad m] [Host m] (facilities : Facilities)

/-! ### Configuration -/

def defaultConfig : String := "jack.yaml"

def readSettings (path : String) : ExceptT StartError m Settings := do
  match ← readText path with
  | .error e => throw (.file e)
  | .ok text =>
    match Settings.ofText? facilities text with
    | some settings => return settings
    | none => throw .configuration

/-- The file that the options name has to be there, the usual one need not. -/
def loadSettings (options : Options) : ExceptT StartError m Settings := do
  match options.config with
  | some path => readSettings facilities path
  | none =>
    if (← Host.kindAt defaultConfig) = some .file then readSettings facilities defaultConfig
    else return .default facilities

/-! ### Output directory -/

/-- Makes a directory that may be there already. Returns whether it is there now; it is not if the
directory around it is missing. -/
def ensureDir (path : String) : ExceptT StartError m Bool := do
  match ← Host.makeDir path with
  | .ok () => return true
  | .error e =>
    if e = .notFound then return false
    else if e = .alreadyExists && (← Host.kindAt path) = some .directory then return true
    else throw (.outDir e)

/-- Goes up to a directory that is there or can be made, and makes those below it on the way
back. -/
def ensureDirs : List String → ExceptT StartError m Unit
  | [] => return
  | path :: above => do
    if path = "" || path = "/" then return
    else if ← ensureDir path then return
    else
      ensureDirs above
      if ← ensureDir path then return else throw (.outDir .notFound)

/-! ### Units -/

def isSource (path : String) : Bool := Path.extension? path = some "jack"

/-- Order by code points, which is also that of the bytes. -/
def sortNames (names : List String) : List String := names.mergeSort fun a b => !decide (b < a)

/-- The sources in a directory by name, or the one source that the path is. -/
def findUnits (path : String) : ExceptT StartError m (List String) := do
  match ← Host.kindAt path with
  | some .directory =>
    match ← Host.list path with
    | .error e => throw (.file e)
    | .ok names =>
      (sortNames names).filterMapM fun name => do
        let unit := Path.join path name
        return if isSource unit && (← Host.kindAt unit) = some .file then some unit else none
  | some .file => if isSource path then return [path] else throw (.noSource path)
  | none => throw (.noSource path)

/-! ### Runs -/

/-- What to compile, and how. -/
def start (options : Options) : ExceptT StartError m (Settings × List String) := do
  let settings := (← loadSettings facilities options).withOptions options
  Host.report (.settings settings)
  match settings.outDir with
  | some dir => ensureDirs (Path.ancestors dir)
  | none => pure ()
  return (settings, ← findUnits options.path)

structure Ending where
  exitCode : Nat
  out : String
  err : String
deriving DecidableEq, Repr

/-- A run with the options, given what compiles units and returns how many of them failed. -/
def runOptions (compile : Settings → List String → m Nat) (options : Options) : m Ending := do
  match ← (start facilities options).run with
  | .error e => return ⟨1, "", e.text⟩
  | .ok (settings, units) =>
    if units.isEmpty then
      Host.report (.noUnits options.path)
      return ⟨0, "", ""⟩
    else
      let failed ← compile settings units
      Host.report (.finished (units.length - failed) units.length (← Host.elapsed))
      return ⟨if failed = 0 then 0 else 1, "", ""⟩

def runWith (compile : Settings → List String → m Nat) (args : List String) : m Ending :=
  match Options.parse? args with
  | some options => runOptions facilities compile options
  | none => return ⟨64, usage, ""⟩

/-- A run with the usual facilities that compiles one unit after the other. -/
def run (args : List String) : m Ending := runWith .usual compileAll args

end Jack
