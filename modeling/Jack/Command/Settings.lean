import Jack.Command.Options
import Jack.Text.Quoted

/-!
Settings, and how a configuration gives them. What a text says of the keys, and how many threads
there can be, is up to the facilities that the program is given; the rest it decides itself.
-/

namespace Jack

structure Settings where
  emitTokens : Bool
  emitTree : Bool
  /-- Where output goes, if not next to each source. -/
  outDir : Option String
  /-- How many units may be compiled at the same time. -/
  jobs : Nat
deriving DecidableEq, Repr

/-- What a configuration says of each key. -/
structure Entries where
  emitTokens : Option Bool := none
  emitTree : Option Bool := none
  outDir : Option String := none
  jobs : Option Nat := none

/-- What settings rest on besides the program. -/
structure Facilities where
  /-- What a text says, if it is a configuration. -/
  entries? : String → Option Entries
  /-- How many threads can work at the same time. -/
  threads : Nat
  threads_pos : 0 < threads

namespace Settings

def default (facilities : Facilities) : Settings := ⟨false, false, none, facilities.threads⟩

/-- Fills in what a configuration does not say. A number of jobs that is zero counts as none. -/
def ofEntries (facilities : Facilities) (e : Entries) : Settings :=
  let usual := default facilities
  ⟨e.emitTokens.getD usual.emitTokens, e.emitTree.getD usual.emitTree,
    e.outDir.orElse fun _ => usual.outDir, (e.jobs.filter (· ≠ 0)).getD usual.jobs⟩

/-- Characters that show nothing: the separators, tab to carriage return, and the next line. -/
def isWhite (c : Char) : Bool :=
  c = ' ' || ('\t' ≤ c && c ≤ '\r') || c = '\u0085' || c = '\u00a0' || c = '\u1680' ||
    ('\u2000' ≤ c && c ≤ '\u200a') || c = '\u2028' || c = '\u2029' || c = '\u202f' ||
    c = '\u205f' || c = '\u3000'

/-- The settings in a text, if it is a configuration. Nothing at all is one too. -/
def ofText? (facilities : Facilities) (text : String) : Option Settings :=
  if text.toList.all isWhite then some (default facilities)
  else (facilities.entries? text).map (ofEntries facilities)

/-- Options add to what a configuration asks for. -/
def withOptions (s : Settings) (options : Options) : Settings :=
  { s with
    emitTokens := s.emitTokens || options.tokens
    emitTree := s.emitTree || options.tree
    outDir := options.outDir.orElse fun _ => s.outDir }

/-- How a log record shows the settings. -/
def text (s : Settings) : String :=
  let outDir := match s.outDir with
    | some dir => "Some(" ++ quoteText dir ++ ")"
    | none => "None"
  "CompilerConf \x7b emit_tokens: " ++ toString s.emitTokens ++ ", emit_tree: "
    ++ toString s.emitTree ++ ", out_dir: " ++ outDir ++ ", jobs: " ++ s.jobs.repr ++ " \x7d"

end Settings

end Jack
