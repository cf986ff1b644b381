import Jack.Yaml.Token

/-!
A document that is one flat mapping, as a list of keys and values in order. A node may be an alias
of one that has an anchor.
-/

namespace Jack.Yaml

structure Node where
  text : String
  style : Style
  tag : Option String
deriving DecidableEq, Repr

namespace Node

/-- What stands where nothing is written. -/
def empty : Node := ⟨"", .plain, none⟩

def ofScalar (s : Scalar) (tag : Option String) : Node := ⟨s.text, s.style, tag⟩

end Node

/-- A node as it is written. -/
inductive Written where
  | node (anchor : Option String) (n : Node)
  | alias (name : String)
deriving DecidableEq, Repr

def Written.empty : Written := .node none .empty

/-! ### Nodes -/

abbrev Handles := List (String × String)

/-- The anchor and the tag in front of a node, in either order, and what comes then. -/
def properties? (handles : Handles) :
    List Token → Option (Option String × Option String × List Token)
  | .anchor name :: .tag t :: ts | .tag t :: .anchor name :: ts =>
    (t.resolve? handles).map fun tag => (some name, some tag, ts)
  | .anchor name :: ts => some (some name, none, ts)
  | .tag t :: ts => (t.resolve? handles).map fun tag => (none, some tag, ts)
  | ts => some (none, none, ts)

/-- A scalar or an alias, and what comes then. Properties alone make an empty scalar. -/
def node? (handles : Handles) : List Token → Option (Written × List Token)
  | .alias name :: ts => some (.alias name, ts)
  | ts => do
    match ← properties? handles ts with
    | (anchor, tag, .scalar s :: rest) => return (.node anchor (.ofScalar s tag), rest)
    | (none, none, _) => none
    | (anchor, tag, rest) => return (.node anchor { Node.empty with tag }, rest)

/-- A node, or nothing in front of one of some tokens. -/
def nodeBefore? (ends : List Token) (handles : Handles) (ts : List Token) :
    Option (Written × List Token) :=
  match ts.head? with
  | some t => if ends.contains t then some (.empty, ts) else node? handles ts
  | none => none

/-- The value of a key, if a colon comes. -/
def value? (ends : List Token) (handles : Handles) : List Token → Option (Written × List Token)
  | .value :: ts => nodeBefore? ends handles ts
  | ts => some (.empty, ts)

/-! ### Entries -/

/-- A line for each key, up to the end of the mapping, and what comes then. Each takes a token, so
the number of tokens bounds the rounds. -/
def linesFrom (handles : Handles) :
    Nat → List Token → Option (List (Written × Written) × List Token)
  | _, .mappingEnd :: ts => some ([], ts)
  | rounds + 1, .key :: ts => do
    let ends := [.key, .value, .mappingEnd]
    let (key, ts) ← nodeBefore? ends handles ts
    let (value, ts) ← value? ends handles ts
    let (entries, ts) ← linesFrom handles rounds ts
    return ((key, value) :: entries, ts)
  | _, _ => none

/-- A key and its value between braces. Without a sign that it is a key, a node has no value. -/
def braceEntry? (handles : Handles) : List Token → Option ((Written × Written) × List Token)
  | .key :: ts => do
    let (key, ts) ← nodeBefore? [.value, .comma, .closeBrace] handles ts
    let (value, ts) ← value? [.comma, .closeBrace] handles ts
    return ((key, value), ts)
  | ts => (node? handles ts).map fun (key, ts) => ((key, .empty), ts)

/-- Entries with commas between them, up to the closing brace, and what comes then. -/
def bracesFrom (handles : Handles) :
    Nat → List Token → Option (List (Written × Written) × List Token)
  | _, .closeBrace :: ts => some ([], ts)
  | 0, _ => none
  | rounds + 1, ts => do
    let (entry, ts) ← braceEntry? handles ts
    match ts with
    | .comma :: ts =>
      let (entries, ts) ← bracesFrom handles rounds ts
      return (entry :: entries, ts)
    | .closeBrace :: ts => return ([entry], ts)
    | _ => none

/-! ### Documents -/

/-- The mapping of a document, and the anchor of all of it. -/
structure Document where
  anchor : Option String
  entries : List (Written × Written)

/-- The mapping that a document holds, and what comes then. Properties without anything behind them
are an empty one. -/
def mapping? (handles : Handles) (ts : List Token) : Option (Document × List Token) := do
  match ← properties? handles ts with
  | (anchor, _, .mappingStart :: rest) =>
    let (entries, rest) ← linesFrom handles rest.length rest
    return (⟨anchor, entries⟩, rest)
  | (anchor, _, .openBrace :: rest) =>
    let (entries, rest) ← bracesFrom handles rest.length rest
    return (⟨anchor, entries⟩, rest)
  | (none, none, _) => none
  | (anchor, _, rest) => return (⟨anchor, []⟩, rest)

/-- The handles that directives set. No directive may be repeated. -/
def handles? (version : Bool) (handles : Handles) : List Directive → Option Handles
  | [] => some handles
  | .version :: ds => if version then none else handles? true handles ds
  | .handle name start :: ds =>
    if (handles.lookup name).isSome then none
    else handles? version ((name, start) :: handles) ds

/-- The directives in front, and what comes then. -/
def splitDirectives : List Token → List Directive × List Token
  | .directive d :: ts => ((splitDirectives ts).1.cons d, (splitDirectives ts).2)
  | ts => ([], ts)

/-- The one document of a text. It need not have a start, unless there are directives, and may have
any number of ends. -/
def document? (ts : List Token) : Option Document := do
  let (directives, rest) := splitDirectives ts
  let handles ← handles? false [] directives
  let (document, rest) ← match rest with
    | .documentStart :: rest =>
      match rest with
      | [] | .documentEnd :: _ => some (⟨none, []⟩, rest)
      | _ => mapping? handles rest
    | rest =>
      if !directives.isEmpty then none
      else if rest.isEmpty then some (⟨none, []⟩, [])
      else mapping? handles rest
  if rest.all (· = .documentEnd) then return document else none

/-! ### Anchors -/

/-- Anchors by number. A new one has the number of different names before it, and the last one with
a number is what this number stands for. The mapping itself is no node. -/
structure Anchors where
  numbers : List (String × Nat) := []
  nodes : List (Nat × Option Node) := []

namespace Anchors

def set (a : Anchors) (node : Option Node) : Option String → Anchors
  | none => a
  | some name =>
    let number := a.numbers.length
    ⟨(name, number) :: a.numbers.filter (·.1 ≠ name), (number, node) :: a.nodes⟩

/-- The node behind a number. -/
def node? (a : Anchors) (number : Nat) : Option Node := (a.nodes.lookup number).bind id

/-- Nodes and the numbers of aliases, in order, and all anchors. -/
def number? (a : Anchors) : List Written → Option (List (Node ⊕ Nat) × Anchors)
  | [] => some ([], a)
  | .node anchor n :: rest => do
    let (nodes, a) ← (a.set (some n) anchor).number? rest
    return (.inl n :: nodes, a)
  | .alias name :: rest => do
    let number ← a.numbers.lookup name
    let (nodes, a) ← a.number? rest
    return (.inr number :: nodes, a)

end Anchors

/-- Keys and values from nodes that come in turn. -/
def pairs : List Node → List (Node × Node)
  | key :: value :: rest => (key, value) :: pairs rest
  | _ => []

/-- The entries with every alias replaced by its node. -/
def Document.resolve? (d : Document) : Option (List (Node × Node)) := do
  let written := d.entries.flatMap fun (key, value) => [key, value]
  let (nodes, anchors) ← (({} : Anchors).set none d.anchor).number? written
  let nodes ← nodes.mapM fun
    | .inl n => some n
    | .inr number => anchors.node? number
  return pairs nodes

/-- The entries of a text in order, or nothing if it is no flat mapping. A text of comments only is
an empty mapping. -/
def readMapping? (text : String) : Option (List (Node × Node)) := do
  (← document? (← tokenize? text)).resolve?

end Jack.Yaml
