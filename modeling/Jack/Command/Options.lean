/-!
The command line: which options there are, and the text that explains them.
-/

namespace Jack

structure Options where
  tokens : Bool
  tree : Bool
  config : Option String
  outDir : Option String
  path : String
deriving DecidableEq, Repr

namespace Options

/-- Options read so far; the path may be missing. -/
structure Partial where
  tokens : Bool := false
  tree : Bool := false
  config : Option String := none
  outDir : Option String := none
  path : Option String := none

/-- Refuses an unknown option, an option without its operand, and a second path. -/
def readArgs : List String → Partial → Option Partial
  | [], opts => some opts
  | "--tokens" :: args, opts => readArgs args { opts with tokens := true }
  | "--tree" :: args, opts => readArgs args { opts with tree := true }
  | ["--config"], _ => none
  | "--config" :: file :: args, opts => readArgs args { opts with config := some file }
  | ["--out"], _ => none
  | "--out" :: dir :: args, opts => readArgs args { opts with outDir := some dir }
  | arg :: args, opts =>
    if arg.startsWith "-" || opts.path.isSome then none
    else readArgs args { opts with path := some arg }

/-- The options on a command line, or nothing if the usage has to be explained. -/
def parse? (args : List String) : Option Options := do
  let opts ← readArgs args {}
  return ⟨opts.tokens, opts.tree, opts.config, opts.outDir, ← opts.path⟩

end Options

def usage : String :=
"jackc v0.1.0

usage: jackc [OPTIONS] PATH

Compiles a .jack file, or every .jack file in a directory,
into .vm files named after each source file.

options:
    --tokens        Also write the token sequence to <Name>T.xml
    --tree          Also write the syntax tree to <Name>.xml
    --config FILE   Read configuration from FILE instead of jack.yaml
    --out DIR       Write output files to DIR
    -h, --help      Print this message

examples:
    jackc Square
    jackc --tree --out build Main.jack

"

end Jack
