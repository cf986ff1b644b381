import Mathlib.Data.List.DropRight
import Jack.Diagnostic
import Jack.Proofs.Text.Lines

/-!
Lines and columns against the text. The line that is shown for a span is found by one scan of the
text, its number and the column by another. They agree on the character at the start of the span
except on a line that a carriage return starts behind the line feed: the column counts the return,
and the line is shown without it.
-/

namespace Jack

/-! ### The scan for the line -/

namespace Span

variable {index pos start : Nat} {line cs xs ys zs before after : List Char} {c : Char}

theorem lineAround_append_of_notMem (h : '\n' ∉ xs) :
    lineAround index pos start line (xs ++ ys) =
      lineAround index (pos + byteLength xs) start (xs.reverse ++ line) ys := by
  induction xs generalizing pos line with
  | nil => simp
  | cons x xs ih =>
    have hx : x ≠ '\n' := fun heq => h (by simp [heq])
    have hxs : '\n' ∉ xs := fun hmem => h (List.mem_cons_of_mem x hmem)
    rw [List.cons_append, lineAround, ih hxs]
    · simp [Nat.add_assoc]
    · intro cs' heq
      exact absurd heq hx
    · exact hx

/-- A line feed before the span makes the scan forget what it has read. -/
theorem lineAround_append_feed (start' : Nat) (line' : List Char)
    (h : pos + byteLength xs < index) :
    lineAround index pos start line (xs ++ '\n' :: zs) =
      lineAround index (pos + byteLength xs) start' line' ('\n' :: zs) := by
  generalize hcs : xs ++ '\n' :: zs = cs
  -- Either the feed is the first character, and both sides take the same step, or it is behind one
  -- that the scan goes over.
  fun_induction lineAround index pos start line cs generalizing xs with
  | case1 => simp at hcs
  | case2 pos start line cs hlt ih =>
    cases xs with
    | nil =>
      obtain rfl : zs = '\r' :: cs := by simpa using hcs
      simp [lineAround, hlt]
    | cons x xs =>
      cases xs with
      | nil => simp at hcs
      | cons y xs =>
        simp only [List.cons_append, List.cons.injEq] at hcs
        obtain ⟨rfl, rfl, hcs⟩ := hcs
        have hpos : pos + 2 + byteLength xs = pos + byteLength ('\n' :: '\r' :: xs) := by
          simp only [byteLength_cons, utf8Size_feed, utf8Size_return]
          omega
        rw [ih (hpos ▸ h) hcs, hpos]
  | case3 pos start line cs hlt => omega
  | case4 pos start line cs _ hlt ih =>
    cases xs with
    | nil =>
      obtain rfl : zs = cs := by simpa using hcs
      simp [lineAround, hlt]
    | cons x xs =>
      simp only [List.cons_append, List.cons.injEq] at hcs
      obtain ⟨rfl, hcs⟩ := hcs
      have hpos : pos + 1 + byteLength xs = pos + byteLength ('\n' :: xs) := by
        simp only [byteLength_cons, utf8Size_feed]
        omega
      rw [ih (hpos ▸ h) hcs, hpos]
  | case5 pos start line cs _ hlt => omega
  | case6 pos start line c cs _ hc ih =>
    cases xs with
    | nil => exact absurd (List.cons.inj hcs).1.symm hc
    | cons x xs =>
      simp only [List.cons_append, List.cons.injEq] at hcs
      obtain ⟨rfl, hcs⟩ := hcs
      have hpos : pos + x.utf8Size + byteLength xs = pos + byteLength (x :: xs) := by
        rw [byteLength_cons, Nat.add_assoc]
      rw [ih (hpos ▸ h) hcs, hpos]

/-- From the span on, the line goes to the next line feed, with what ends it. -/
theorem exists_ending (start : Nat) (line cs : List Char) (h : index ≤ pos) : ∃ ending,
    (lineAround index pos start line cs).2 =
      line.reverse ++ (cs.takeWhile (· ≠ '\n') ++ ending) ∧
    ∀ c ∈ ending, c = '\n' ∨ c = '\r' := by
  fun_induction lineAround index pos start line cs with
  | case1 pos start line => exact ⟨[], by simp, by simp⟩
  | case2 pos start line cs hlt ih => omega
  | case3 pos start line cs hlt => exact ⟨['\n', '\r'], by simp, by simp⟩
  | case4 pos start line cs hne hlt ih => omega
  | case5 pos start line cs _ hlt => exact ⟨['\n'], by simp, by simp⟩
  | case6 pos start line c cs _ hc ih =>
    have hc' : c ≠ '\n' := hc
    obtain ⟨ending, hline, hending⟩ := ih (by omega)
    exact ⟨ending, by simp [hline, hc'], hending⟩

/-- The part of a line before the span that the scan keeps, when a line feed comes before it. -/
def behindReturn : List Char → List Char
  | '\r' :: cs => cs
  | cs => cs

theorem exists_ending_of_head {head : List Char} (hindex : pos + byteLength head = index)
    (hhead : '\n' ∉ head) : ∃ ending,
      (lineAround index pos start [] (head ++ cs)).2 =
        head ++ (cs.takeWhile (· ≠ '\n') ++ ending) ∧
      ∀ c ∈ ending, c = '\n' ∨ c = '\r' := by
  rw [lineAround_append_of_notMem hhead, hindex, List.append_nil]
  have hending := exists_ending start head.reverse cs (Nat.le_refl index)
  rwa [List.reverse_reverse] at hending

theorem exists_ending_behindReturn {head : List Char} (hindex : pos + 1 + byteLength head = index)
    (hhead : '\n' ∉ head) (hc : c ≠ '\r') : ∃ ending,
      (lineAround index pos start line ('\n' :: (head ++ c :: after))).2 =
        behindReturn head ++ ((c :: after).takeWhile (· ≠ '\n') ++ ending) ∧
      ∀ c ∈ ending, c = '\n' ∨ c = '\r' := by
  have hlt : pos < index := by omega
  by_cases hfirst : ∃ rest, head = '\r' :: rest
  · obtain ⟨rest, rfl⟩ := hfirst
    rw [byteLength_cons, utf8Size_return] at hindex
    simp only [List.cons_append, lineAround, hlt, if_true, behindReturn]
    exact exists_ending_of_head (by omega) fun hmem => hhead (List.mem_cons_of_mem _ hmem)
  · have hnot (rest : List Char) : head ++ c :: after ≠ '\r' :: rest := by
      cases head with
      | nil => simpa using fun heq => absurd heq hc
      | cons x xs =>
        intro heq
        exact hfirst ⟨xs, by rw [(List.cons.inj heq).1]⟩
    have hkept : behindReturn head = head := by
      rw [behindReturn]
      intro rest heq
      exact hfirst ⟨rest, heq⟩
    rw [lineAround, if_pos hlt, hkept]
    · exact exists_ending_of_head hindex hhead
    · exact hnot

/-- The part of the line before the span. -/
def lineHead (before : List Char) : List Char := before.rtakeWhile (· ≠ '\n')

/-- The part of it that is shown. -/
def shownHead (before : List Char) : List Char :=
  if '\n' ∈ before then behindReturn (lineHead before) else lineHead before

theorem lineHead_append_feed {front head : List Char} (h : '\n' ∉ head) :
    lineHead (front ++ '\n' :: head) = head := by
  have hmem (x : Char) (hx : x ∈ head.reverse) : decide (x ≠ '\n') = true :=
    decide_eq_true fun heq => h (heq ▸ List.mem_reverse.1 hx)
  have hreverse : (front ++ '\n' :: head).reverse = head.reverse ++ '\n' :: front.reverse := by
    simp
  rw [lineHead, List.rtakeWhile, hreverse, List.takeWhile_append_of_pos hmem]
  simp

theorem lineHead_of_notMem (h : '\n' ∉ before) : lineHead before = before := by
  rw [lineHead, List.rtakeWhile_eq_self_iff]
  exact fun x hx => decide_eq_true fun heq => h (heq ▸ hx)

theorem exists_lastFeed (h : '\n' ∈ before) :
    ∃ front, before = front ++ '\n' :: lineHead before ∧ '\n' ∉ lineHead before := by
  obtain ⟨head, front, hreverse, hhead⟩ := List.eq_append_cons_of_mem (List.mem_reverse.2 h)
  have hbefore : before = front.reverse ++ '\n' :: head.reverse := by
    rw [← List.reverse_reverse before, hreverse]
    simp
  have hhead' : '\n' ∉ head.reverse := by simpa using hhead
  have hline : lineHead before = head.reverse := by rw [hbefore, lineHead_append_feed hhead']
  exact ⟨front.reverse, by rw [hline]; exact hbefore, hline ▸ hhead'⟩

/-- The line that is shown: what it shows of the part before the span, and then all that comes up to
the next line feed, with what ends it. -/
theorem exists_surroundingLine (before after : List Char) (hc : c ≠ '\r') : ∃ ending,
    (lineAround (byteLength before) 0 0 [] (before ++ c :: after)).2 =
      shownHead before ++ ((c :: after).takeWhile (· ≠ '\n') ++ ending) ∧
    ∀ c ∈ ending, c = '\n' ∨ c = '\r' := by
  by_cases h : '\n' ∈ before
  · obtain ⟨front, hbefore, hhead⟩ := exists_lastFeed h
    have hindex : byteLength front + 1 + byteLength (lineHead before) = byteLength before := by
      have hbytes := congrArg byteLength hbefore
      rw [byteLength_append, byteLength_cons, utf8Size_feed] at hbytes
      omega
    have hsplit : before ++ c :: after = front ++ '\n' :: (lineHead before ++ c :: after) := by
      conv_lhs => rw [hbefore]
      simp
    rw [hsplit, lineAround_append_feed 0 [] (by omega), Nat.zero_add, shownHead, if_pos h]
    exact exists_ending_behindReturn hindex hhead hc
  · rw [shownHead, if_neg h, lineHead_of_notMem h]
    exact exists_ending_of_head (Nat.zero_add _) h

end Span

theorem rdropWhile_append_cons {p : Char → Bool} {front tail : List Char} {c : Char}
    (hc : p c = false) :
    (front ++ c :: tail).rdropWhile p = front ++ c :: tail.rdropWhile p := by
  induction tail using List.reverseRecOn with
  | nil => simp [hc]
  | append_singleton tail x ih =>
    have hassoc : front ++ c :: (tail ++ [x]) = (front ++ c :: tail) ++ [x] := by simp
    rw [hassoc, List.rdropWhile_concat, List.rdropWhile_concat, ih]
    split
    · rfl
    · simp

theorem rdropWhile_append_of_forall {p : Char → Bool} {xs ending : List Char}
    (h : ∀ c ∈ ending, p c = true) : (xs ++ ending).rdropWhile p = xs.rdropWhile p := by
  simp only [List.rdropWhile, List.reverse_append]
  rw [List.dropWhile_append_of_pos]
  simpa using h

/-- What is left of a line of which `tail` is behind a character that is not a part of its end. -/
theorem trimLineEnd_ofList {front tail ending : List Char} {c : Char} (hfeed : c ≠ '\n')
    (hreturn : c ≠ '\r') (htail : '\n' ∉ tail) (hending : ∀ c ∈ ending, c = '\n' ∨ c = '\r') :
    (trimLineEnd (String.ofList (front ++ c :: (tail ++ ending)))).toList =
      front ++ c :: tail.rdropWhile (· = '\r') := by
  have hsame : tail.rdropWhile (fun c => c = '\n' || c = '\r') = tail.rdropWhile (· = '\r') := by
    induction tail using List.reverseRecOn with
    | nil => rfl
    | append_singleton tail x ih =>
      have hx : x ≠ '\n' := fun heq => htail (by simp [heq])
      have hrest : '\n' ∉ tail := fun hmem => htail (List.mem_append_left _ hmem)
      simp [List.rdropWhile_concat, hx, ih hrest]
  have hassoc : front ++ c :: (tail ++ ending) = (front ++ c :: tail) ++ ending := by simp
  have hending' : ∀ c ∈ ending, (decide (c = '\n') || decide (c = '\r')) = true := by
    simpa using hending
  rw [trimLineEnd, String.toList_ofList, String.toList_ofList, ← List.rdropWhile, hassoc,
    rdropWhile_append_of_forall hending', rdropWhile_append_cons (by simp [hfeed, hreturn]), hsame]

/-! ### Lines -/

theorem length_splitOn_feed (cs : List Char) : (cs.splitOn '\n').length = cs.count '\n' + 1 := by
  induction cs with
  | nil => rfl
  | cons c cs ih =>
    rw [List.splitOn_cons_eq_if_modifyHead, List.count_cons]
    split <;> simp [ih]

theorem head_splitOn_feed (cs : List Char) :
    (cs.splitOn '\n')[0]? = some (cs.takeWhile (· ≠ '\n')) := by
  induction cs with
  | nil => rfl
  | cons c cs ih =>
    rw [List.splitOn_cons_eq_if_modifyHead]
    by_cases hc : c = '\n'
    · simp [hc]
    · cases hlines : cs.splitOn '\n' with
      | nil => simp [hlines] at ih
      | cons line lines =>
        rw [hlines] at ih
        simpa [hc] using ih

/-- The line that `before` leads into, counted by the line feeds before it. -/
theorem textLines_getElem?_count {text : String} {before rest : List Char}
    (htext : text.toList = before ++ rest) :
    (textLines text)[before.count '\n']? =
      some (Span.lineHead before ++ rest.takeWhile (· ≠ '\n')) := by
  have htake {head : List Char} (hhead : '\n' ∉ head) :
      (head ++ rest).takeWhile (· ≠ '\n') = head ++ rest.takeWhile (· ≠ '\n') :=
    List.takeWhile_append_of_pos fun x hx => decide_eq_true fun heq => hhead (heq ▸ hx)
  rw [textLines, htext]
  by_cases h : '\n' ∈ before
  · obtain ⟨front, hbefore, hhead⟩ := Span.exists_lastFeed h
    have hsplit : before ++ rest = front ++ '\n' :: (Span.lineHead before ++ rest) := by
      conv_lhs => rw [hbefore]
      simp
    have hcount : before.count '\n' = (front.splitOn '\n').length := by
      rw [length_splitOn_feed]
      conv_lhs => rw [hbefore]
      simp [List.count_eq_zero_of_not_mem hhead]
    rw [hsplit, List.splitOn_append_cons_self, hcount, List.getElem?_append_right (Nat.le_refl _),
      Nat.sub_self, head_splitOn_feed, htake hhead]
  · rw [List.count_eq_zero_of_not_mem h, head_splitOn_feed, Span.lineHead_of_notMem h, htake h]

/-- The line of a character that does not end it. -/
theorem textLines_getElem? {text : String} {before after : List Char} {c : Char}
    (htext : text.toList = before ++ c :: after) (hc : c ≠ '\n') :
    (textLines text)[before.count '\n']? =
      some (Span.lineHead before ++ c :: after.takeWhile (· ≠ '\n')) := by
  rw [textLines_getElem?_count htext, List.takeWhile_cons_of_pos (by simpa using hc)]

/-! ### Places -/

theorem Span.lineColumn?_eq {span : Span} {text : String} {before rest : List Char}
    (htext : text.toList = before ++ rest) (hindex : byteLength before = span.index) :
    span.lineColumn? text = some (before.count '\n' + 1, (lineHead before).length + 1) := by
  have hsplit : text.toList = [] ++ (before ++ rest) := htext
  have hfront : (⟨0, span.index⟩ : Span).fragment? text = some (String.ofList before) :=
    fragment?_of_toList hsplit rfl hindex
  have hle : span.index ≤ text.utf8ByteSize := by
    rw [← byteLength_toList, htext, byteLength_append]
    omega
  have hzero : boundary? text 0 = some text.startPos := boundary?_eq_some_iff.2 rfl
  simp only [fragment?, hzero, stop, Nat.zero_add, Option.bind_eq_bind, Option.bind_some] at hfront
  obtain ⟨stop, hstop, hextract⟩ := Option.bind_eq_some_iff.1 hfront
  have hbefore : (text.extract text.startPos stop).toList = before := by
    rw [Option.some.inj hextract, String.toList_ofList]
  rw [lineColumn?, Nat.min_eq_left hle, hstop]
  simp [hbefore, lineHead, List.rtakeWhile]

/-- The place is that of the character `c` of the text, as a reader sees it: the line that is shown
is the one of that number without the carriage returns at its end, the character stands in the
column, and the underline starts there and does not go past the line. -/
structure Location.PointsAt (l : Location) (text : String) (c : Char) : Prop where
  sourceLine : ∃ line, (textLines text)[l.line - 1]? = some line ∧
    l.sourceLine.toList = line.rdropWhile (· = '\r')
  start : l.sourceLine.toList[l.column - 1]? = some c
  fromOne : 1 ≤ l.line ∧ 1 ≤ l.column ∧ 1 ≤ l.width
  width_le : l.column - 1 + l.width ≤ l.sourceLine.length

theorem Span.shownHead_eq_iff {before rest : List Char} {c : Char} (hc : c ≠ '\r') :
    shownHead before = lineHead before ↔
      before.count '\n' + 1 = 1 ∨ (lineHead before ++ c :: rest).head? ≠ some '\r' := by
  have hcount : before.count '\n' + 1 = 1 ↔ '\n' ∉ before := by
    rw [Nat.add_eq_right, List.count_eq_zero]
  rw [hcount, shownHead]
  by_cases h : '\n' ∈ before
  · rw [if_pos h, or_iff_right (not_not.2 h)]
    cases lineHead before with
    | nil => simp [behindReturn, hc]
    | cons x xs =>
      by_cases hx : x = '\r'
      · subst hx
        simp [behindReturn]
      · simp [behindReturn, hx]
  · simp [h]

theorem Span.toList_sourceLine {span : Span} {text : String} {before after : List Char} {c : Char}
    (htext : text.toList = before ++ c :: after) (hindex : byteLength before = span.index)
    (hfeed : c ≠ '\n') (hreturn : c ≠ '\r') :
    (trimLineEnd (span.surroundingLine text).1).toList =
      shownHead before ++ c :: (after.takeWhile (· ≠ '\n')).rdropWhile (· = '\r') := by
  have htail : '\n' ∉ after.takeWhile (· ≠ '\n') := fun hmem => by
    simpa using List.mem_takeWhile_imp hmem
  obtain ⟨ending, hline, hending⟩ := exists_surroundingLine before after hreturn
  have hfirst : (c :: after).takeWhile (· ≠ '\n') = c :: after.takeWhile (· ≠ '\n') :=
    List.takeWhile_cons_of_pos (by simpa using hfeed)
  have hsurrounding : (span.surroundingLine text).1 =
      String.ofList (lineAround (byteLength before) 0 0 [] (before ++ c :: after)).2 := by
    rw [← htext, hindex]
    rfl
  rw [hsurrounding, hline, hfirst, List.cons_append]
  exact trimLineEnd_ofList hfeed hreturn htail hending

/-- A character that does not end a line is pointed at, unless its line is behind another one and
starts with a carriage return. -/
theorem Location.ofSpan?_pointsAt_iff {span : Span} {text fragment : String}
    {before after : List Char} {c : Char} (hfragment : span.fragment? text = some fragment)
    (htext : text.toList = before ++ c :: after) (hindex : byteLength before = span.index)
    (hfeed : c ≠ '\n') (hreturn : c ≠ '\r') :
    ∃ l line, ofSpan? span text = some l ∧ (textLines text)[l.line - 1]? = some line ∧
      (∀ unit cause, cause.span = span → (Diagnostic.located unit text cause).text =
        s!"{unit}:{l.line}:{l.column}: {cause.message}\n  {l.sourceLine}\n  "
          ++ Diagnostic.run ' ' (l.column - 1) ++ Diagnostic.run '^' l.width) ∧
      (l.PointsAt text c ↔ l.line = 1 ∨ line.head? ≠ some '\r') := by
  have hplace := Span.lineColumn?_eq htext hindex
  have hsource := textLines_getElem? htext hfeed
  have hshown := Span.toList_sourceLine htext hindex hfeed hreturn
  -- The line of the text and the line that is shown differ only in the part before the character.
  have htrimmed : (Span.lineHead before ++ c :: after.takeWhile (· ≠ '\n')).rdropWhile (· = '\r') =
      Span.lineHead before ++ c :: (after.takeWhile (· ≠ '\n')).rdropWhile (· = '\r') :=
    rdropWhile_append_cons (by simpa using hreturn)
  generalize hsourceLine : trimLineEnd (span.surroundingLine text).1 = shown at hshown
  have hlocation : ofSpan? span text = some ⟨before.count '\n' + 1,
      (Span.lineHead before).length + 1, shown,
      max 1 (min fragment.length (max (shown.length - (Span.lineHead before).length) 1))⟩ := by
    simp [ofSpan?, hplace, hfragment, hsourceLine]
  refine ⟨_, _, hlocation, hsource, ?_, ?_⟩
  · intro unit cause hspan
    simp [Diagnostic.text, Diagnostic.located, hspan, hlocation]
  · rw [← Span.shownHead_eq_iff hreturn]
    constructor
    · intro h
      obtain ⟨line, hline, hsame⟩ := h.sourceLine
      obtain rfl := Option.some.inj (hsource.symm.trans hline)
      rw [hshown, htrimmed] at hsame
      exact List.append_cancel_right hsame
    · intro h
      rw [h] at hshown
      have hlength : (Span.lineHead before).length < shown.length := by
        rw [← String.length_toList, hshown]
        simp
      refine ⟨⟨_, hsource, by rw [hshown, htrimmed]⟩, ?_, ?_, ?_⟩
      · simp [hshown]
      · exact ⟨Nat.le_add_left .., Nat.le_add_left .., Nat.le_max_left ..⟩
      · simp only [Nat.add_sub_cancel]
        omega

/-- Behind a carriage return and a line feed, and with characters of more than one byte on its line,
a character is pointed at. -/
theorem Location.behindFeed_pointsAt :
    let text := "é\r\n\tlet x = @ü;\r\n"
    let l : Location := ⟨2, 10, "\tlet x = @ü;", 3⟩
    ofSpan? ⟨13, 4⟩ text = some l ∧ l.PointsAt text '@' := by
  intro text l
  have hl : ofSpan? ⟨13, 4⟩ text = some l := by decide +kernel
  have hline : (textLines text)[1]? = some "\tlet x = @ü;\r".toList := by decide +kernel
  have hfragment : (⟨13, 4⟩ : Span).fragment? text = some "@ü;" := by decide +kernel
  have htext : text.toList = "é\r\n\tlet x = ".toList ++ '@' :: "ü;\r\n".toList := by
    decide +kernel
  obtain ⟨l', line', hl', hline', -, hiff⟩ := ofSpan?_pointsAt_iff hfragment htext
    (by decide +kernel) (by decide) (by decide)
  obtain rfl : l = l' := Option.some.inj (hl.symm.trans hl')
  obtain rfl := Option.some.inj (hline.symm.trans hline')
  exact ⟨hl, hiff.2 (.inr (by decide +kernel))⟩

/-- Behind a line feed and a carriage return, the column is one too far for the line shown. -/
theorem Location.behindReturn_misses :
    let text := "class A \x7b\n\r@ \x7d"
    let l : Location := ⟨2, 2, "@ \x7d", 1⟩
    (⟨11, 1⟩ : Span).fragment? text = some "@" ∧ ofSpan? ⟨11, 1⟩ text = some l ∧
      (textLines text)[1]? = some "\r@ \x7d".toList ∧ ¬ l.PointsAt text '@' := by
  intro text l
  refine ⟨by decide +kernel, by decide +kernel, by decide +kernel, fun h => ?_⟩
  have hstart := h.start
  simp [l] at hstart

end Jack
