import Jack.Command.Settings
import Jack.Diagnostic

/-!
What a run reports while it goes on. A record has a severity and the part of the program that it
comes from, and is shown if its severity reaches the threshold.
-/

namespace Jack

inductive Severity where
  | error | warn | info | debug | trace
deriving DecidableEq, Repr

namespace Severity

def rank : Severity → Nat
  | error => 1
  | warn => 2
  | info => 3
  | debug => 4
  | trace => 5

/-- Five characters wide. -/
def text : Severity → String
  | error => "ERROR"
  | warn => "WARN "
  | info => "INFO "
  | debug => "DEBUG"
  | trace => "TRACE"

end Severity

/-- The highest rank that is shown: what the text names, in any case of letters, or else that of
information. -/
def threshold (text : Option String) : Nat :=
  let names := ["OFF", "ERROR", "WARN", "INFO", "DEBUG", "TRACE"]
  match text.bind fun t => names.idxOf? t.toUpper with
  | some rank => rank
  | none => Severity.info.rank

/-- Why reading or writing a file failed. -/
structure FileError where
  /-- The number that the system gives, unless the fault was found before or after it was asked. -/
  code : Option Nat
  kind : String
  message : String
deriving DecidableEq, Repr

namespace FileError

def notFound : FileError := ⟨some 2, "NotFound", "No such file or directory"⟩

def alreadyExists : FileError := ⟨some 17, "AlreadyExists", "File exists"⟩

def notADirectory : FileError := ⟨some 20, "NotADirectory", "Not a directory"⟩

def isADirectory : FileError := ⟨some 21, "IsADirectory", "Is a directory"⟩

def nameTooLong : FileError := ⟨some 36, "InvalidFilename", "File name too long"⟩

def nullInPath : FileError :=
  ⟨none, "InvalidInput", "file name contained an unexpected NUL byte"⟩

def notText : FileError := ⟨none, "InvalidData", "stream did not contain valid UTF-8"⟩

def text (e : FileError) : String :=
  match e.code with
  | some code => s!"{e.message} (os error {code})"
  | none => e.message

/-- With all parts named. -/
def debugText (e : FileError) : String :=
  let start := match e.code with
    | some code => "Os \x7b code: " ++ code.repr ++ ", kind: "
    | none => "Error \x7b kind: "
  start ++ e.kind ++ ", message: " ++ quoteText e.message ++ " \x7d"

end FileError

/-- Why a unit has no code. -/
inductive UnitFailure where
  | diagnostic (d : Diagnostic)
  | file (path : String) (e : FileError)
deriving DecidableEq, Repr

def UnitFailure.text : UnitFailure → String
  | diagnostic d => d.text
  | file path e => s!"{path}: {e.text}"

inductive Notice where
  | settings (s : Settings)
  | noUnits (path : String)
  | compiling (unit : String)
  | lexing (unit : String)
  | lexed (tokens : Nat)
  | parsing (unit : String) (tokens : Nat)
  | misnamed (unit className stem : String)
  | generatingClass (name : String)
  | generatingSubroutine (name : String)
  | listed (path : String)
  | written (instructions : Nat) (path : String)
  | failed (failure : UnitFailure)
  | finished (compiled total : Nat) (elapsed : String)
deriving DecidableEq, Repr

namespace Notice

def severity : Notice → Severity
  | failed _ => .error
  | noUnits _ | misnamed .. => .warn
  | compiling _ | written .. | finished .. => .info
  | settings _ | lexing _ | parsing .. | generatingClass _ | listed _ => .debug
  | lexed _ | generatingSubroutine _ => .trace

def source : Notice → String
  | lexing _ | parsing .. => "jack_compiler"
  | lexed _ => "jack_compiler::lex"
  | generatingClass _ | generatingSubroutine _ => "jack_compiler::compile::codegen"
  | _ => "jackc"

def message : Notice → String
  | settings s => s.text
  | noUnits path => s!"no .jack files found in {path}"
  | compiling unit => s!"compiling {unit}"
  | lexing unit => s!"{unit}: lexing"
  | lexed tokens => s!"lexed {tokens} tokens"
  | parsing unit tokens => s!"{unit}: parsing {tokens} tokens"
  | misnamed unit className stem =>
    s!"{unit}: class {className} is declared in a file named {stem}"
  | generatingClass name => s!"generating class {name}"
  | generatingSubroutine name => s!"generating subroutine {name}"
  | listed path => s!"wrote {path}"
  | written instructions path => s!"wrote {instructions} instructions to {path}"
  | failed failure => failure.text
  | finished compiled total elapsed => s!"compiled {compiled} of {total} units in {elapsed}ms"

def text (n : Notice) : String := n.severity.text ++ " [" ++ n.source ++ "] " ++ n.message

end Notice

end Jack
