import Jack.Proofs.Token.Faults

/-!
Lexing to the end, over errors. A lexer that is asked again and again gives results that stand one
behind the other, with nothing but gaps between them, and then the end of the source for ever.
-/

namespace Jack

/-- Where a result of the lexer stands, be it a token or an error. -/
def placeOf : Except LexError Token → Span
  | .ok token => token.span
  | .error e => e.span

/-- The spans stand one behind the other from byte `pos` on, none of them empty. Before the first of
them, between any two and behind the last there are gaps. -/
def Covers (source : String) : Nat → List Span → Prop
  | pos, [] => IsGapBetween source pos source.utf8ByteSize
  | pos, span :: spans =>
    IsGapBetween source pos span.index ∧ 0 < span.size ∧ Covers source span.stop spans

namespace Lexer

/-- The lexer after `n` calls, whatever they gave. -/
def afterCalls (lexer : Lexer) : Nat → Lexer
  | 0 => lexer
  | n + 1 => lexer.next.2.afterCalls n

/-- What a lexer gives after `n` calls. -/
def resultAfter (lexer : Lexer) (n : Nat) : Except LexError Token := (lexer.afterCalls n).next.1

theorem resultAfter_succ (lexer : Lexer) (n : Nat) :
    lexer.resultAfter (n + 1) = lexer.next.2.resultAfter n := rfl

/-! ### What one call takes -/

/-- The result stands at `c` and some of the characters behind it, and the lexer goes on at its end.
-/
def Takes (pos : Nat) (c : Char) (cs : List Char) (outcome : Except LexError Token × Lexer) :
    Prop :=
  ∃ part, cs = part ++ outcome.2.rest ∧ placeOf outcome.1 = ⟨pos, byteLength (c :: part)⟩ ∧
    outcome.2.pos = (placeOf outcome.1).stop

variable {pos : Nat} {c : Char} {cs part rest : List Char}

theorem takes_accept (kind : Kind) (h : cs = part ++ rest) :
    Takes pos c cs (accept kind pos (c :: part) rest) :=
  ⟨part, h, rfl, rfl⟩

theorem takes_reject (fault : LexFault) (h : cs = part ++ rest) :
    Takes pos c cs (reject fault pos (c :: part) rest) :=
  ⟨part, h, rfl, rfl⟩

theorem scanString_takes (pos : Nat) (cs : List Char) : Takes pos '"' cs (scanString pos cs) := by
  have hsplit := List.takeWhile_append_dropWhile (p := isStringChar) (l := cs)
  simp only [scanString]
  split
  next rest hrest =>
    rw [hrest] at hsplit
    exact takes_accept .string (by simp [hsplit])
  next => exact takes_reject .unterminatedString hsplit.symm

theorem scanNumber_takes (hc : isDigit c = true) : Takes pos c cs (scanNumber pos (c :: cs)) := by
  have hdigits := List.takeWhile_append_dropWhile (p := isDigit) (l := cs)
  have hword := List.takeWhile_append_dropWhile (p := isWordChar) (l := cs.dropWhile isDigit)
  simp only [scanNumber, List.takeWhile_cons, List.dropWhile_cons, hc, if_true]
  split
  · exact takes_reject .malformedNumber (by simp [hword, hdigits])
  · split
    · exact takes_accept .integer hdigits.symm
    · exact takes_reject .integerOverflow hdigits.symm

theorem scanWord_takes (hc : isLetter c = true) : Takes pos c cs (scanWord pos (c :: cs)) := by
  have hword := List.takeWhile_append_dropWhile (p := isWordChar) (l := cs)
  simp only [scanWord, List.takeWhile_cons, List.dropWhile_cons, isWordChar_of_isLetter hc, if_true]
  exact takes_accept _ hword.symm

theorem scan_takes (pos : Nat) (c : Char) (cs : List Char) :
    Takes pos c cs (scan pos (c :: cs)) := by
  simp only [scan]
  split
  next hquote =>
    subst hquote
    exact scanString_takes pos cs
  next =>
    split
    next hdigit => exact scanNumber_takes hdigit
    next =>
      split
      next hletter => exact scanWord_takes hletter
      next =>
        split
        next s _ => exact takes_accept (.symbol s) rfl
        next => exact takes_reject (.unknownCharacter c) rfl

theorem byteLength_cons_pos (c : Char) (cs : List Char) : 0 < byteLength (c :: cs) := by
  have hpos := c.utf8Size_pos
  rw [byteLength_cons]
  omega

variable {source : String} {lexer after : Lexer}

/-- The end of the source is not found where there is text. -/
theorem kind_ne_of_scan {token : Token} (h : scan pos (c :: cs) = (.ok token, after)) :
    token.kind ≠ .endOfSource := by
  intro hkind
  obtain ⟨part, -, hplace, -⟩ := scan_takes pos c cs
  obtain ⟨lexeme, -, hspan, -, hspells⟩ := scan_accepts h
  rw [hkind] at hspells
  obtain rfl : lexeme = [] := hspells
  have hsize := congrArg Span.size (hspan.symm.trans (h ▸ hplace))
  exact absurd hsize (Nat.ne_of_lt (byteLength_cons_pos c part))

/-- A lexer that has read all stands at the end of the source. -/
theorem StandsIn.pos_eq (h : lexer.StandsIn source) (hrest : lexer.rest = []) :
    lexer.pos = source.utf8ByteSize := by
  obtain ⟨seen, hseen, hlen⟩ := h
  rw [hrest, List.append_nil] at hseen
  rw [← hlen, ← hseen, byteLength_toList]

/-- The result of a call takes some text away, behind a gap, and the lexer goes on where it ends. -/
structure Proceeds (source : String) (lexer : Lexer) (result : Except LexError Token)
    (after : Lexer) : Prop where
  kind_ne : ∀ token, result = .ok token → token.kind ≠ .endOfSource
  gap : IsGapBetween source lexer.pos (placeOf result).index
  size_pos : 0 < (placeOf result).size
  pos_eq : after.pos = (placeOf result).stop
  standsIn : after.StandsIn source
  shrinks : after.rest.length < lexer.rest.length

/-- Text behind a gap is taken by a call, unless there is none. -/
theorem proceeds_of_gap {gap text : List Char} {result : Except LexError Token}
    (hin : lexer.StandsIn source) (hrest : lexer.rest = gap ++ (c :: text ++ after.rest))
    (hgap : IsGap (c :: text ++ after.rest) gap)
    (hplace : placeOf result = ⟨lexer.pos + byteLength gap, byteLength (c :: text)⟩)
    (hpos : after.pos = (placeOf result).stop)
    (hkind : ∀ token, result = .ok token → token.kind ≠ .endOfSource) :
    Proceeds source lexer result after := by
  have htaken : lexer.rest = (gap ++ c :: text) ++ after.rest := by simp [hrest]
  refine ⟨hkind, ⟨gap, c :: text ++ after.rest, ?_, ?_, hgap⟩, ?_, hpos, hin.skip htaken ?_, ?_⟩
  · rw [← hrest]
    exact hin
  · rw [hplace]
  · rw [hplace]
    exact byteLength_cons_pos c text
  · rw [hpos, hplace, Span.stop, byteLength_append, Nat.add_assoc]
  · rw [hrest]
    simp only [List.length_append, List.length_cons]
    omega

/-- A call either finds the end of the source or takes some text away. -/
theorem next_proceeds (hin : lexer.StandsIn source) :
    (IsGapBetween source lexer.pos source.utf8ByteSize ∧ lexer.next =
      (.ok ⟨.endOfSource, source.utf8ByteSize, 0⟩, ⟨source.utf8ByteSize, []⟩)) ∨
    Proceeds source lexer lexer.next.1 lexer.next.2 := by
  cases hskip : skipGap .blanks lexer.pos lexer.rest with
  | error e =>
    have hnext : lexer.next = (.error e, ⟨e.span.stop, []⟩) := by simp only [next, hskip]
    obtain ⟨gap, body, hrest, hgap, -, rfl⟩ | ⟨_, hblock, -⟩ := skipGap_eq_error hskip
    · have hopen : '/' :: '*' :: body = '/' :: ('*' :: body) ++ [] := by rw [List.append_nil]
      rw [hopen] at hrest hgap
      rw [hnext]
      exact .inr (proceeds_of_gap hin hrest hgap rfl rfl (by simp))
    · cases hblock
  | ok start =>
    have hnext : lexer.next = scan start.pos start.rest := by simp only [next, hskip]
    obtain ⟨-, gap, hrest, hgap, hpos⟩ := skipGap_eq_ok_iff.1 hskip
    have hstart : start.StandsIn source := hin.skip hrest hpos
    rw [hnext]
    cases hcs : start.rest with
    | nil =>
      have hend := hstart.pos_eq hcs
      rw [hcs] at hrest hgap
      refine .inl ⟨⟨gap, [], ?_, hpos.symm.trans hend, hgap⟩, ?_⟩
      · rw [← hrest]
        exact hin
      · rw [hend]
        rfl
    | cons c cs =>
      obtain ⟨text, htext, hplace, hafter⟩ := scan_takes start.pos c cs
      rw [hcs, htext] at hrest hgap
      rw [hpos] at hplace
      refine .inr (proceeds_of_gap hin hrest hgap ?_ hafter ?_)
      · rw [hpos]
        exact hplace
      · intro token htoken
        exact kind_ne_of_scan (Prod.ext htoken rfl)

/-! ### Call after call -/

/-- At the end of the source a lexer stays there. -/
theorem resultAfter_of_end (pos n : Nat) :
    resultAfter ⟨pos, []⟩ n = .ok ⟨.endOfSource, pos, 0⟩ := by
  induction n with
  | zero => rfl
  | succ n ih => exact ih

/-- The results of a lexer up to the end of its source are no more than the characters that it has
not read. -/
theorem exists_results (hin : lexer.StandsIn source) :
    ∃ results : List (Except LexError Token), results.length ≤ lexer.rest.length ∧
      (∀ n, lexer.resultAfter n =
        results[n]?.getD (.ok ⟨.endOfSource, source.utf8ByteSize, 0⟩)) ∧
      (∀ token, .ok token ∈ results → token.kind ≠ .endOfSource) ∧
      Covers source lexer.pos (results.map placeOf) := by
  -- Every result but the last leaves less to read, be it a token or an error.
  induction hlength : lexer.rest.length using Nat.strongRecOn generalizing lexer with
  | ind length ih =>
    subst hlength
    obtain ⟨hgap, hnext⟩ | hproceeds := next_proceeds hin
    · refine ⟨[], Nat.zero_le _, fun n => ?_, by simp, hgap⟩
      cases n with
      | zero => rw [resultAfter, afterCalls, hnext]; rfl
      | succ n =>
        rw [resultAfter_succ, hnext]
        exact resultAfter_of_end _ n
    · obtain ⟨results, hlength, hresults, hkinds, hcovers⟩ :=
        ih _ hproceeds.shrinks hproceeds.standsIn rfl
      have hshrinks := hproceeds.shrinks
      refine ⟨lexer.next.1 :: results, ?_, fun n => ?_, ?_, hproceeds.gap, hproceeds.size_pos, ?_⟩
      · rw [List.length_cons]
        omega
      · cases n with
        | zero => rfl
        | succ n =>
          rw [resultAfter_succ, hresults]
          rfl
      · intro token htoken
        rcases List.mem_cons.1 htoken with heq | htoken
        · exact hproceeds.kind_ne token heq.symm
        · exact hkinds token htoken
      · rw [← hproceeds.pos_eq]
        exact hcovers

/-- A lexer that is called again and again, over errors too, gives at most as many results as its
source has characters, and from then on the end of the source. The results are not empty, stand one
behind the other, and all text outside of them is blanks and comments. -/
theorem resultAfter_covers (source : String) :
    ∃ results : List (Except LexError Token), results.length ≤ source.length ∧
      (∀ n, (ofSource source).resultAfter n =
        results[n]?.getD (.ok ⟨.endOfSource, source.utf8ByteSize, 0⟩)) ∧
      (∀ token, .ok token ∈ results → token.kind ≠ .endOfSource) ∧
      Covers source 0 (results.map placeOf) := by
  have hlength : (ofSource source).rest.length = source.length := String.length_toList
  rw [← hlength]
  exact exists_results (standsIn_ofSource source)

example : (List.range 6).map (ofSource "12a @ \"s\n/* t").resultAfter =
    [.error ⟨.malformedNumber, 0, 3⟩, .error ⟨.unknownCharacter '@', 4, 1⟩,
      .error ⟨.unterminatedString, 6, 2⟩, .error ⟨.unterminatedComment, 9, 4⟩,
      .ok ⟨.endOfSource, 13, 0⟩, .ok ⟨.endOfSource, 13, 0⟩] := rfl

end Lexer

end Jack
