import Jack.Command.Settings
import Jack.Yaml.Mapping

/-!
Configuration files. A key may be left out or have no value; unknown and repeated keys are refused.
-/

namespace Jack

namespace Entries

/-! ### Values -/

/-- The tag of a kind that every document knows. -/
def usualTag (kind : String) : String := "tag:yaml.org,2002:" ++ kind

def nullTexts : List String := ["~", "null", "Null", "NULL"]

/-- Whether a value can be of a kind that is no text: it is not in quotes, and lines of its own are
tagged as of that kind. -/
def maybeOf (kind : String) (n : Yaml.Node) : Bool :=
  n.style = .plain || (n.style = .literal && n.tag = some (usualTag kind))

def bool? (n : Yaml.Node) : Option Bool :=
  if !maybeOf "bool" n then none
  else if ["true", "True", "TRUE"].contains n.text then some true
  else if ["false", "False", "FALSE"].contains n.text then some false
  else none

/-- A number written with digits of a base, at least one. -/
def digits? (base : Nat) : List Char → Option Nat
  | [] => none
  | cs => cs.foldlM (fun n c => do
      let d ← Yaml.hexValue? c
      if d < base then some (base * n + d) else none) 0

def maxCount : Nat := 18446744073709551615

/-- A number of 64 bits: decimal without leading zeros, or with `0x`, `0o` or `0b` in front. -/
def count? (n : Yaml.Node) : Option Nat :=
  let cs := match n.text.toList with
    | '+' :: cs => cs
    | cs => cs
  let value := match cs with
    | '0' :: 'x' :: cs => digits? 16 cs
    | '0' :: 'o' :: cs => digits? 8 cs
    | '0' :: 'b' :: cs => digits? 2 cs
    | '0' :: _ :: _ => none
    | cs => digits? 10 cs
  if maybeOf "int" n then value.filter (· ≤ maxCount) else none

/-- Nothing for a null, and otherwise what the reader makes of the value. A plain value is a null if
it looks like one, and what is tagged as a null has to. -/
def optional {α : Type} (read? : Yaml.Node → Option α) (n : Yaml.Node) : Option (Option α) :=
  let value := (read? n).map some
  if n.style ≠ .plain then value
  else
    match n.tag with
    | none => if n.text = "" || nullTexts.contains n.text then some none else value
    | some tag =>
      if tag ≠ usualTag "null" then value
      else if nullTexts.contains n.text then some none
      else none

/-! ### Files -/

def readEntry (entries : Entries) (entry : Yaml.Node × Yaml.Node) : Option Entries :=
  match entry.1.text with
  | "emit_tokens" => (optional bool? entry.2).map fun v => { entries with emitTokens := v }
  | "emit_tree" => (optional bool? entry.2).map fun v => { entries with emitTree := v }
  | "out_dir" => (optional (fun n => some n.text) entry.2).map fun v => { entries with outDir := v }
  | "jobs" => (optional count? entry.2).map fun v => { entries with jobs := v }
  | _ => none

def hasRepeats : List String → Bool
  | [] => false
  | key :: keys => keys.contains key || hasRepeats keys

/-- The entries in a text that is a mapping. -/
def ofYaml? (text : String) : Option Entries := do
  let entries ← Yaml.readMapping? text
  if hasRepeats (entries.map (·.1.text)) then none else entries.foldlM readEntry {}

end Entries

/-- Configurations are mappings, and one thread works. -/
def Facilities.usual : Facilities := ⟨Entries.ofYaml?, 1, Nat.one_pos⟩

end Jack
