/-!
Spans of a UTF-8 text, in bytes, and what a reader sees at them: the fragment, its line and column,
and the line around it.

`fragment?_eq_some_iff` says what a fragment is: the middle part of a split of the text at the
two ends of the span.
-/

namespace Jack

/-- A stretch of a text: the byte at which it starts and its number of bytes. -/
structure Span where
  index : Nat
  size : Nat
deriving DecidableEq, Repr, Inhabited

/-- The number of bytes that the characters take in UTF-8. -/
def byteLength (cs : List Char) : Nat :=
  cs.foldl (fun n c => n + c.utf8Size) 0

theorem byteLength_foldl (cs : List Char) (n : Nat) :
    cs.foldl (fun n c => n + c.utf8Size) n = n + byteLength cs := by
  induction cs generalizing n with
  | nil => rfl
  | cons c cs ih =>
    simp only [byteLength, List.foldl_cons, Nat.zero_add]
    rw [ih, ih c.utf8Size]
    omega

@[simp] theorem byteLength_nil : byteLength [] = 0 := rfl

@[simp] theorem byteLength_cons (c : Char) (cs : List Char) :
    byteLength (c :: cs) = c.utf8Size + byteLength cs := by
  simpa [byteLength] using byteLength_foldl cs c.utf8Size

@[simp] theorem byteLength_append (as bs : List Char) :
    byteLength (as ++ bs) = byteLength as + byteLength bs := by
  induction as with
  | nil => simp
  | cons a as ih => simp [ih]; omega

theorem utf8ByteSize_ofList (cs : List Char) : (String.ofList cs).utf8ByteSize = byteLength cs := by
  induction cs with
  | nil => rfl
  | cons c cs ih => simp [String.ofList_cons, ih]

theorem byteLength_toList (s : String) : byteLength s.toList = s.utf8ByteSize := by
  rw [← utf8ByteSize_ofList, String.ofList_toList]

/-- The position before byte `n` of the text, if it is between characters. -/
def boundary? (text : String) (n : Nat) : Option text.Pos :=
  if h : (⟨n⟩ : String.Pos.Raw).IsValid text then some (text.pos ⟨n⟩ h) else none

theorem boundary?_eq_some_iff {text : String} {n : Nat} {p : text.Pos} :
    boundary? text n = some p ↔ p.offset.byteIdx = n := by
  simp only [boundary?]
  constructor
  · intro h
    split at h <;> simp at h
    subst h; rfl
  · rintro rfl
    rw [dif_pos p.isValid]
    rfl

namespace Span

/-- The byte after the last one. -/
def stop (span : Span) : Nat := span.index + span.size

/-- The text under the span, if both ends are inside the text and between characters. -/
def fragment? (span : Span) (text : String) : Option String := do
  let start ← boundary? text span.index
  let stop ← boundary? text span.stop
  return text.extract start stop

theorem fragment?_eq_some_iff {span : Span} {text f : String} :
    span.fragment? text = some f ↔
      ∃ a b, text = a ++ f ++ b ∧ a.utf8ByteSize = span.index ∧ f.utf8ByteSize = span.size := by
  constructor
  · intro h
    simp only [fragment?, Option.bind_eq_bind, Option.bind_eq_some_iff, Option.pure_def,
      Option.some.injEq] at h
    obtain ⟨p, hp, q, hq, rfl⟩ := h
    rw [boundary?_eq_some_iff] at hp hq
    have hle : p ≤ q := by
      simp [String.Pos.le_iff, String.Pos.Raw.le_iff, hp, hq, stop]
    rw [String.extract_eq_copy_slice _ _ hle]
    obtain ⟨a, b, ha, hb⟩ := String.copy_slice_eq_iff_splits.1 ⟨hle, rfl⟩
    have ha' : a.utf8ByteSize = span.index := by rw [← hp, ha.offset_eq_rawEndPos]; rfl
    have hb' : (a ++ (text.slice p q hle).copy).utf8ByteSize = span.stop := by
      rw [← hq, hb.offset_eq_rawEndPos]; rfl
    simp only [String.utf8ByteSize_append, stop] at hb'
    exact ⟨a, b, hb.eq_append, ha', by omega⟩
  · rintro ⟨a, b, rfl, ha, hf⟩
    have hp := String.Pos.splits_ofEqAppend
      (show a ++ f ++ b = a ++ (f ++ b) from String.append_assoc)
    have hq := String.Pos.splits_ofEqAppend (Eq.refl (a ++ f ++ b))
    obtain ⟨hle, h⟩ := String.copy_slice_eq_iff_splits.2 ⟨a, b, hp, hq⟩
    have hp' := congrArg String.Pos.Raw.byteIdx hp.offset_eq_rawEndPos
    have hq' := congrArg String.Pos.Raw.byteIdx hq.offset_eq_rawEndPos
    simp only [String.byteIdx_rawEndPos, String.utf8ByteSize_append] at hp' hq'
    simp only [fragment?, boundary?_eq_some_iff.2 (hp'.trans ha),
      boundary?_eq_some_iff.2 (hq'.trans (congr (congrArg HAdd.hAdd ha) hf)), stop,
      Option.bind_eq_bind, Option.bind_some, Option.pure_def, Option.some.injEq]
    rw [String.extract_eq_copy_slice _ _ hle, h]

/-- The line and the column, both from one, of the first byte of the span. A line ends after a line
feed; a column counts characters. A span past the end counts as one at the end. -/
def lineColumn? (span : Span) (text : String) : Option (Nat × Nat) := do
  let stop ← boundary? text (min span.index text.utf8ByteSize)
  let before := (text.extract text.startPos stop).toList
  return (before.count '\n' + 1, (before.reverse.takeWhile (· ≠ '\n')).length + 1)

/-- The line of `cs` that holds byte `index`, and the byte at which it starts. `pos` is the byte at
the head of `cs`, `start` the byte at which its line starts and `line` the part of that line already
read, last character first. A line feed takes a carriage return after it into its line. -/
def lineAround (index pos start : Nat) (line : List Char) : List Char → Nat × List Char
  | [] => (start, line.reverse)
  | '\n' :: '\r' :: cs =>
    if pos < index then lineAround index (pos + 2) (pos + 2) [] cs
    else (start, ('\r' :: '\n' :: line).reverse)
  | '\n' :: cs =>
    if pos < index then lineAround index (pos + 1) (pos + 1) [] cs
    else (start, ('\n' :: line).reverse)
  | c :: cs => lineAround index (pos + c.utf8Size) start (c :: line) cs

/-- The whole line around the start of the span, its ending included, and the span of that line. -/
def surroundingLine (span : Span) (text : String) : String × Span :=
  let (start, line) := lineAround span.index 0 0 [] text.toList
  (String.ofList line, ⟨start, byteLength line⟩)

end Span

end Jack
