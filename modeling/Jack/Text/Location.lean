import Jack.Text.Span

/-!
Where a span lies for a reader: line, column, the text of its line, and how far an underline goes.
-/

namespace Jack

structure Location where
  line : Nat
  column : Nat
  /-- The line without its ending. -/
  sourceLine : String
  /-- Characters to underline, at least one and none past the end of the line. -/
  width : Nat
deriving DecidableEq, Repr

/-- The line without the carriage returns and line feeds at its end. -/
def trimLineEnd (line : String) : String :=
  String.ofList (line.toList.reverse.dropWhile fun c => c = '\n' || c = '\r').reverse

/-- Fails on a span that does not lie between characters of the text. -/
def Location.ofSpan? (span : Span) (text : String) : Option Location := do
  let (line, column) ← span.lineColumn? text
  let sourceLine := trimLineEnd (span.surroundingLine text).1
  let remaining := sourceLine.length - (column - 1)
  let fragment ← span.fragment? text
  return ⟨line, column, sourceLine, max 1 (min fragment.length (max remaining 1))⟩

end Jack
