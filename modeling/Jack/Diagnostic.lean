import Jack.Text.Location
import Jack.Token.Cursor
import Jack.Vm.Emit

/-!
Errors as they are shown: the unit, the place if it is known, the cause, and the line with the place
underlined.
-/

namespace Jack

inductive Cause where
  | lexical (e : LexError)
  | syntactic (e : SyntaxError)
  | semantic (e : CompileError)
deriving DecidableEq, Repr

namespace Cause

def span : Cause → Span
  | lexical e => e.span
  | syntactic e => e.found.span
  | semantic e => e.span

def message : Cause → String
  | lexical e => "lexical error: " ++ e.message
  | syntactic e => "syntax error: " ++ e.message
  | semantic e => "compile error: " ++ e.message

end Cause

structure Diagnostic where
  unit : String
  cause : Cause
  location : Option Location
deriving DecidableEq, Repr

namespace Diagnostic

/-- An error in a source at hand. The place is missing if the error's span is not one of the
source. -/
def located (unit source : String) (cause : Cause) : Diagnostic :=
  ⟨unit, cause, Location.ofSpan? cause.span source⟩

/-- An error without a source to show. -/
def bare (unit : String) (cause : Cause) : Diagnostic := ⟨unit, cause, none⟩

/-- `n` times the character. -/
def run (c : Char) (n : Nat) : String := String.ofList (List.replicate n c)

def text (d : Diagnostic) : String :=
  match d.location with
  | some l =>
    s!"{d.unit}:{l.line}:{l.column}: {d.cause.message}\n  {l.sourceLine}\n  "
      ++ run ' ' (l.column - 1) ++ run '^' l.width
  | none => s!"{d.unit}: {d.cause.message}"

end Diagnostic

end Jack
