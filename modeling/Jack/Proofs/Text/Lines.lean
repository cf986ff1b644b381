import Jack.Text.Location

/-!
Lines of texts, and lines and places of spans. A text that is written line by line has these lines.
The line around a span is a fragment of the text, whatever the span is, and a span that has a
fragment has a place.
-/

namespace Jack

/-! ### Lines of a text -/

/-- The lines of a text, without the line feeds between them. -/
def textLines (text : String) : List (List Char) := text.toList.splitOn '\n'

/-- The lines that end in a line feed, without it. -/
def endedLines (text : String) : List (List Char) := (textLines text).dropLast

theorem textLines_append {line : String} (h : '\n' ∉ line.toList) (text : String) :
    textLines (line ++ "\n" ++ text) = line.toList :: textLines text := by
  have htext : (line ++ "\n" ++ text).toList = line.toList ++ '\n' :: text.toList := by
    simp [String.toList_append]
  rw [textLines, htext, List.splitOn_append_cons_self_of_not_mem h]
  rfl

/-- What is written line by line has the lines that are written, and nothing behind the last. -/
theorem textLines_join {lines : List String} (h : ∀ line ∈ lines, '\n' ∉ line.toList) :
    textLines (String.join (lines.map (· ++ "\n"))) = lines.map String.toList ++ [[]] := by
  induction lines with
  | nil => rfl
  | cons line lines ih =>
    rw [List.forall_mem_cons] at h
    rw [List.map_cons, String.join_cons, textLines_append h.1, ih h.2, List.map_cons,
      List.cons_append]

theorem endedLines_join {lines : List String} (h : ∀ line ∈ lines, '\n' ∉ line.toList) :
    endedLines (String.join (lines.map (· ++ "\n"))) = lines.map String.toList := by
  rw [endedLines, textLines_join h, List.dropLast_concat]

/-! ### Fragments and bytes -/

theorem utf8Size_feed : '\n'.utf8Size = 1 := by decide

theorem utf8Size_return : '\r'.utf8Size = 1 := by decide

/-- A span has for its fragment what stands there in the text. -/
theorem Span.fragment?_of_toList {span : Span} {text : String} {before middle after : List Char}
    (htext : text.toList = before ++ (middle ++ after)) (hindex : byteLength before = span.index)
    (hsize : byteLength middle = span.size) :
    span.fragment? text = some (String.ofList middle) := by
  refine fragment?_eq_some_iff.2 ⟨String.ofList before, String.ofList after, ?_, ?_, ?_⟩
  · rw [← String.toList_inj, htext]
    simp
  · rw [utf8ByteSize_ofList, hindex]
  · rw [utf8ByteSize_ofList, hsize]

/-! ### The line around a span -/

theorem head?_ne_of_forall_ne {c : Char} {cs : List Char} (h : ∀ cs', cs = c :: cs' → False) :
    cs.head? ≠ some c := by
  intro hhead
  obtain ⟨cs', hcs⟩ := List.head?_eq_some_iff.1 hhead
  exact h cs' hcs

/-- What ends a line in front of `rest`: a line feed, with the carriage return behind it if there is
one. -/
inductive EndsLine : List Char → List Char → Prop
  | feed {rest : List Char} (h : rest.head? ≠ some '\r') : EndsLine ['\n'] rest
  | pair {rest : List Char} : EndsLine ['\n', '\r'] rest

/-- A line starts behind `before`: nothing comes before it, or the end of a line whose line feed is
in front of byte `index`. -/
def Span.StartsLine (index : Nat) (before rest : List Char) : Prop :=
  before = [] ∨ ∃ front ending, before = front ++ ending ∧ EndsLine ending rest ∧
    byteLength front < index

/-- Of the text `before ++ (line ++ after)`, the middle part is the one line around byte `index`. It
ends with the text, or with a line feed that is not in front of the byte, and has no other one. -/
structure Span.IsLineAround (index : Nat) (before line after : List Char) : Prop where
  start : StartsLine index before (line ++ after)
  stop : ('\n' ∉ line ∧ after = []) ∨ ∃ head ending, line = head ++ ending ∧ '\n' ∉ head ∧
    EndsLine ending after ∧ index ≤ byteLength (before ++ head)

/-- The line that is found is a stretch of the text, it starts at the byte that is found, and it is
the line around the span. Before it come the lines `before`, of `start` bytes, and the part `line`
that is already read. -/
theorem Span.lineAround_isLineAround {index pos start : Nat} {line cs before : List Char}
    (hstart : byteLength before = start) (hpos : start + byteLength line.reverse = pos)
    (hbefore : StartsLine index before (line.reverse ++ cs)) (hline : '\n' ∉ line) :
    ∃ front back, before ++ (line.reverse ++ cs) =
        front ++ ((lineAround index pos start line cs).2 ++ back) ∧
      byteLength front = (lineAround index pos start line cs).1 ∧
      IsLineAround index front (lineAround index pos start line cs).2 back := by
  -- The lines before grow at a line feed in front of the span, the line itself otherwise.
  fun_induction lineAround index pos start line cs generalizing before with
  | case1 pos start line =>
    exact ⟨before, [], rfl, hstart, hbefore, .inl ⟨by simpa using hline, rfl⟩⟩
  | case2 pos start line cs hlt ih =>
    have hbytes : byteLength (before ++ (line.reverse ++ ['\n', '\r'])) = pos + 2 := by
      simp only [byteLength_append, byteLength_cons, byteLength_nil, utf8Size_feed,
        utf8Size_return]
      omega
    have hfront : byteLength (before ++ line.reverse) < index := by
      rw [byteLength_append]
      omega
    obtain ⟨front, back, hsplit, hrest⟩ := ih hbytes rfl
      (.inr ⟨before ++ line.reverse, _, by simp, .pair, hfront⟩) (by simp)
    exact ⟨front, back, by simpa using hsplit, hrest⟩
  | case3 pos start line cs hlt =>
    refine ⟨before, cs, by simp, hstart, by simpa using hbefore, .inr ⟨line.reverse, ['\n', '\r'],
      by simp, by simpa using hline, .pair, ?_⟩⟩
    rw [byteLength_append]
    omega
  | case4 pos start line cs hcs hlt ih =>
    have hbytes : byteLength (before ++ (line.reverse ++ ['\n'])) = pos + 1 := by
      simp only [byteLength_append, byteLength_cons, byteLength_nil, utf8Size_feed]
      omega
    have hfront : byteLength (before ++ line.reverse) < index := by
      rw [byteLength_append]
      omega
    obtain ⟨front, back, hsplit, hrest⟩ := ih hbytes rfl
      (.inr ⟨before ++ line.reverse, _, by simp, .feed (head?_ne_of_forall_ne hcs), hfront⟩)
      (by simp)
    exact ⟨front, back, by simpa using hsplit, hrest⟩
  | case5 pos start line cs hcs hlt =>
    refine ⟨before, cs, by simp, hstart, by simpa using hbefore, .inr ⟨line.reverse, ['\n'],
      by simp, by simpa using hline, .feed (head?_ne_of_forall_ne hcs), ?_⟩⟩
    rw [byteLength_append]
    omega
  | case6 pos start line c cs _ hc ih =>
    have hbytes : start + byteLength (c :: line).reverse = pos + c.utf8Size := by
      simp only [List.reverse_cons, byteLength_append, byteLength_cons, byteLength_nil]
      omega
    have hc' : '\n' ∉ c :: line := List.not_mem_cons_of_ne_of_not_mem (Ne.symm hc) hline
    obtain ⟨front, back, hsplit, hrest⟩ := ih hstart hbytes (by simpa using hbefore) hc'
    exact ⟨front, back, by simpa using hsplit, hrest⟩

/-- The text in front of the line around a span and behind it. -/
theorem Span.exists_split_surroundingLine (span : Span) (text : String) :
    ∃ before after,
      text.toList = before ++ ((span.surroundingLine text).1.toList ++ after) ∧
      byteLength before = (span.surroundingLine text).2.index ∧
      IsLineAround span.index before (span.surroundingLine text).1.toList after := by
  obtain ⟨before, after, hsplit, hbytes, hline⟩ :=
    @lineAround_isLineAround span.index 0 0 [] text.toList [] rfl rfl (.inl rfl) (by simp)
  simp only [surroundingLine, String.toList_ofList]
  exact ⟨before, after, by simpa using hsplit, hbytes, hline⟩

/-- The line around a span lies in the text between characters, at the span given with it. -/
theorem Span.fragment?_surroundingLine (span : Span) (text : String) :
    (span.surroundingLine text).2.fragment? text = some (span.surroundingLine text).1 := by
  obtain ⟨before, after, htext, hbytes, -⟩ := span.exists_split_surroundingLine text
  have hsize : byteLength (span.surroundingLine text).1.toList =
      (span.surroundingLine text).2.size := by
    rw [surroundingLine, String.toList_ofList]
  rw [fragment?_of_toList htext hbytes hsize, String.ofList_toList]

/-! ### Places -/

theorem Span.exists_lineColumn? {span : Span} {text fragment : String}
    (h : span.fragment? text = some fragment) :
    ∃ line column, span.lineColumn? text = some (line + 1, column + 1) := by
  have hle : span.index ≤ text.utf8ByteSize := by
    obtain ⟨a, b, rfl, hindex, -⟩ := fragment?_eq_some_iff.1 h
    simp only [String.utf8ByteSize_append]
    omega
  obtain ⟨start, hstart, -⟩ := Option.bind_eq_some_iff.1 h
  rw [lineColumn?, Nat.min_eq_left hle, hstart]
  exact ⟨_, _, rfl⟩

/-- A span with a fragment has a place, whose column counts from one and which has something to
underline. -/
theorem Location.exists_ofSpan? {span : Span} {text fragment : String}
    (h : span.fragment? text = some fragment) :
    ∃ l, Location.ofSpan? span text = some l ∧ 1 ≤ l.column ∧ 1 ≤ l.width := by
  obtain ⟨line, column, hplace⟩ := Span.exists_lineColumn? h
  simp only [ofSpan?, hplace, h]
  exact ⟨_, rfl, Nat.le_add_left .., Nat.le_max_left ..⟩

end Jack
