import Mathlib.Algebra.Group.Nat.Defs
import Jack.Proofs.Text.Places

/-!
The line around a span, whatever the span is. A scan that moves two ends over the text, and cuts the
text between them at last, never fails and finds the same line: the ends are in order, and between
characters. There is one line around a byte, in the text or not.
-/

namespace Jack

namespace Span

variable {index size pos start : Nat} {line cs before after : List Char} {text : String}

/-! ### The scan by its ends -/

/-- The characters behind byte `pos`, each with the byte at which it starts. -/
def charIndices (pos : Nat) : List Char → List (Nat × Char)
  | [] => []
  | c :: cs => (pos, c) :: charIndices (pos + c.utf8Size) cs

/-- The byte of the next character, or the size of the text if there is none. -/
def nextIndex (size : Nat) (cs : List (Nat × Char)) : Nat := (cs.head?.map Prod.fst).getD size

/-- The ends of the line around byte `index` of a text of `size` bytes. The start moves behind each
line feed in front of the byte, and the first one that is not in front of it is the end. -/
def lineEnds (index size start : Nat) : List (Nat × Char) → Nat × Nat
  | [] => (start, size)
  | (i, '\n') :: (_, '\r') :: cs =>
    if i < index then lineEnds index size (nextIndex size cs) cs else (start, i + 1 + 1)
  | (i, '\n') :: cs =>
    if i < index then lineEnds index size (nextIndex size cs) cs else (start, i + 1)
  | _ :: cs => lineEnds index size start cs

/-- The difference of two numbers, if it is not negative. -/
def subtract? (m n : Nat) : Option Nat := if n ≤ m then some (m - n) else none

/-- The line between the two ends, with the span that 32 bits have for it. Fails if the ends are not
in order, or not between characters of the text. -/
def cutLine? (span : Span) (text : String) : Option (String × Span) := do
  let (start, stop) := lineEnds span.index text.utf8ByteSize 0 (charIndices 0 text.toList)
  let size ← subtract? (stop % 2 ^ 32) (start % 2 ^ 32)
  let line ← (⟨start, ← subtract? stop start⟩ : Span).fragment? text
  return (line, ⟨start % 2 ^ 32, size⟩)

theorem nextIndex_charIndices (h : pos + byteLength cs = size) :
    nextIndex size (charIndices pos cs) = pos := by
  cases cs with
  | nil => simpa [nextIndex, charIndices] using h.symm
  | cons c cs => simp [nextIndex, charIndices]

section

variable (index size start pos : Nat) {c : Char} {cs : List Char}

theorem lineEnds_pair : lineEnds index size start (charIndices pos ('\n' :: '\r' :: cs)) =
    if pos < index then
      lineEnds index size (nextIndex size (charIndices (pos + 2) cs)) (charIndices (pos + 2) cs)
    else (start, pos + 2) := rfl

theorem lineEnds_feed (h : ∀ cs', cs = '\r' :: cs' → False) :
    lineEnds index size start (charIndices pos ('\n' :: cs)) =
      if pos < index then
        lineEnds index size (nextIndex size (charIndices (pos + 1) cs)) (charIndices (pos + 1) cs)
      else (start, pos + 1) := by
  cases cs with
  | nil => rfl
  | cons c cs =>
    have hc : c ≠ '\r' := fun heq => h cs (by rw [heq])
    simp [charIndices, lineEnds, hc, utf8Size_feed]

theorem lineEnds_char (hc : c ≠ '\n') :
    lineEnds index size start (charIndices pos (c :: cs)) =
      lineEnds index size start (charIndices (pos + c.utf8Size) cs) := by
  simp [charIndices, lineEnds, hc]

end

/-- The ends are those of the line that is read. -/
theorem lineEnds_charIndices (hpos : start + byteLength line.reverse = pos)
    (hsize : pos + byteLength cs = size) :
    lineEnds index size start (charIndices pos cs) =
      ((lineAround index pos start line cs).1, (lineAround index pos start line cs).1 +
        byteLength (lineAround index pos start line cs).2) := by
  fun_induction lineAround index pos start line cs with
  | case1 pos start line => simp only [charIndices, lineEnds, hpos, ← hsize, byteLength_nil]; rfl
  | case2 pos start line cs hlt ih =>
    have hrest : pos + 2 + byteLength cs = size := by
      rw [byteLength_cons, byteLength_cons, utf8Size_feed, utf8Size_return] at hsize
      omega
    rw [lineEnds_pair, if_pos hlt, nextIndex_charIndices hrest, ih rfl hrest]
  | case3 pos start line cs hlt =>
    rw [lineEnds_pair, if_neg hlt]
    refine Prod.ext rfl ?_
    simp only [List.reverse_cons, byteLength_append, byteLength_cons, byteLength_nil,
      utf8Size_feed, utf8Size_return]
    omega
  | case4 pos start line cs hcs hlt ih =>
    have hrest : pos + 1 + byteLength cs = size := by
      rw [byteLength_cons, utf8Size_feed] at hsize
      omega
    rw [lineEnds_feed _ _ _ _ hcs, if_pos hlt, nextIndex_charIndices hrest, ih rfl hrest]
  | case5 pos start line cs hcs hlt =>
    rw [lineEnds_feed _ _ _ _ hcs, if_neg hlt]
    refine Prod.ext rfl ?_
    simp only [List.reverse_cons, byteLength_append, byteLength_cons, byteLength_nil, utf8Size_feed]
    omega
  | case6 pos start line c cs _ hc ih =>
    have hbytes : start + byteLength (c :: line).reverse = pos + c.utf8Size := by
      simp only [List.reverse_cons, byteLength_append, byteLength_cons, byteLength_nil]
      omega
    have hrest : pos + c.utf8Size + byteLength cs = size := by
      rw [byteLength_cons] at hsize
      omega
    rw [lineEnds_char _ _ _ _ hc, ih hbytes hrest]

/-- What is cut out is the line that is read, and nothing fails on the way. -/
theorem cutLine?_eq (span : Span) (hsize : text.utf8ByteSize < 2 ^ 32) :
    span.cutLine? text = some (span.surroundingLine text) := by
  have hfragment := span.fragment?_surroundingLine text
  have hends : lineEnds span.index text.utf8ByteSize 0 (charIndices 0 text.toList) =
      ((span.surroundingLine text).2.index, (span.surroundingLine text).2.stop) :=
    lineEnds_charIndices rfl (by rw [byteLength_toList, Nat.zero_add])
  have hstop : (span.surroundingLine text).2.stop ≤ text.utf8ByteSize := by
    obtain ⟨a, b, htext, hindex, hline⟩ := fragment?_eq_some_iff.1 hfragment
    have hbytes := congrArg String.utf8ByteSize htext
    rw [String.utf8ByteSize_append, String.utf8ByteSize_append] at hbytes
    rw [stop]
    omega
  generalize span.surroundingLine text = found at hfragment hends hstop ⊢
  obtain ⟨line, index, size⟩ := found
  simp only [stop] at hends hstop
  have hstart : index % 2 ^ 32 = index := Nat.mod_eq_of_lt (by omega)
  have hend : (index + size) % 2 ^ 32 = index + size := Nat.mod_eq_of_lt (by omega)
  have hle : index ≤ index + size := Nat.le_add_right ..
  rw [cutLine?, hends]
  dsimp only
  rw [hstart, hend, subtract?, if_pos hle, Nat.add_sub_cancel_left]
  simp [hfragment]

/-! ### The one line around a byte -/

/-- Behind the end of a line in front of the byte, the scan starts anew. -/
theorem StartsLine.lineAround_eq (h : StartsLine index before cs) :
    lineAround index 0 0 [] (before ++ cs) =
      lineAround index (byteLength before) (byteLength before) [] cs := by
  rcases h with rfl | ⟨front, ending, rfl, hends, hlt⟩
  · rfl
  · cases hends with
    | feed hcs =>
      rw [List.append_assoc, List.singleton_append, lineAround_append_feed 0 [] (by omega),
        lineAround, if_pos (by omega)]
      · simp [utf8Size_feed]
      · intro rest hrest
        exact hcs (by rw [hrest]; rfl)
    | pair =>
      rw [List.append_assoc, List.cons_append, List.singleton_append,
        lineAround_append_feed 0 [] (by omega), lineAround, if_pos (by omega)]
      simp [utf8Size_feed, utf8Size_return]

/-- No other part of the text is the line around the byte. -/
theorem IsLineAround.lineAround_eq (h : IsLineAround index before line after) :
    lineAround index 0 0 [] (before ++ (line ++ after)) = (byteLength before, line) := by
  rw [h.start.lineAround_eq]
  rcases h.stop with ⟨hline, rfl⟩ | ⟨head, ending, rfl, hhead, hends, hle⟩
  · rw [lineAround_append_of_notMem hline]
    simp [lineAround]
  · rw [byteLength_append] at hle
    rw [List.append_assoc, lineAround_append_of_notMem hhead]
    cases hends with
    | feed hafter =>
      rw [List.singleton_append, lineAround, if_neg (by omega)]
      · simp
      · intro rest hrest
        exact hafter (by rw [hrest]; rfl)
    | pair =>
      rw [List.cons_append, List.singleton_append, lineAround, if_neg (by omega)]
      simp

/-- For any span, in the text or not, the line around it can be cut out and is the fragment of the
span that comes with it. It starts with the text or behind the end of a line, has no line feed but
that at its end, and is the only such part of the text around the span. -/
theorem surroundingLine_isLineAround (span : Span) (hsize : text.utf8ByteSize < 2 ^ 32) :
    ∃ line lineSpan, span.cutLine? text = some (line, lineSpan) ∧
      span.surroundingLine text = (line, lineSpan) ∧ lineSpan.fragment? text = some line ∧
      (∃ before after, text.toList = before ++ (line.toList ++ after) ∧
        byteLength before = lineSpan.index ∧ IsLineAround span.index before line.toList after) ∧
      ∀ before line' after, text.toList = before ++ (line' ++ after) →
        IsLineAround span.index before line' after →
        byteLength before = lineSpan.index ∧ line' = line.toList := by
  refine ⟨_, _, cutLine?_eq span hsize, rfl, span.fragment?_surroundingLine text,
    span.exists_split_surroundingLine text, fun before line' after htext hline => ?_⟩
  have heq := hline.lineAround_eq
  rw [← htext] at heq
  simp [heq]

/-- The byte of the span is in the middle of a character, between two lines that end in a line feed
and a carriage return. -/
theorem surroundingLine_isLineAround_pairs :
    let text := "é\n\rü\n\rc"
    let span : Span := ⟨5, 9⟩
    text.utf8ByteSize < 2 ^ 32 ∧ boundary? text span.index = none ∧
      span.cutLine? text = some ("ü\n\r", ⟨4, 4⟩) ∧
      (⟨4, 4⟩ : Span).fragment? text = some "ü\n\r" ∧
      ∃ before after, text.toList = before ++ ("ü\n\r".toList ++ after) ∧
        byteLength before = 4 ∧ IsLineAround 5 before "ü\n\r".toList after := by
  intro text span
  have hsize : text.utf8ByteSize < 2 ^ 32 := by decide +kernel
  have hboundary : boundary? text span.index = none := by decide +kernel
  have hcut : span.cutLine? text = some ("ü\n\r", ⟨4, 4⟩) := by decide +kernel
  obtain ⟨line, lineSpan, hcut', -, hfragment, hline, -⟩ := surroundingLine_isLineAround span hsize
  obtain ⟨rfl, rfl⟩ : "ü\n\r" = line ∧ (⟨4, 4⟩ : Span) = lineSpan := by
    simpa using hcut.symm.trans hcut'
  exact ⟨hsize, hboundary, hcut, hfragment, hline⟩

end Span

end Jack
