import Jack.Proofs.Token.Faults

/-!
Texts joined by a line feed. No token, no comment and no error of the text in front reaches over the
line feed, so the tokens of the whole are those of the two texts, the latter at later places.
-/

namespace Jack

/-! ### Later places -/

def Span.shift (n : Nat) (span : Span) : Span := ⟨span.index + n, span.size⟩

def Token.shift (n : Nat) (token : Token) : Token := ⟨token.kind, token.span.shift n⟩

def LexError.shift (n : Nat) (e : LexError) : LexError := ⟨e.fault, e.span.shift n⟩

def Lexer.shift (n : Nat) (lexer : Lexer) : Lexer := ⟨lexer.pos + n, lexer.rest⟩

def Gap.shift (n : Nat) : Gap → Gap
  | .blanks => .blanks
  | .line => .line
  | .block start => .block (start + n)

/-- What is found of a text that starts `n` bytes later. -/
def shiftOutcome (n : Nat) (outcome : Except LexError Token × Lexer) :
    Except LexError Token × Lexer :=
  ((outcome.1.map (Token.shift n)).mapError (LexError.shift n), outcome.2.shift n)

section

variable (n : Nat)

theorem Span.stop_shift (span : Span) : (span.shift n).stop = span.stop + n := by
  simp only [Span.stop, Span.shift]
  omega

theorem skipGap_shift (gap : Gap) (pos : Nat) (cs : List Char) :
    skipGap (gap.shift n) (pos + n) cs =
      ((skipGap gap pos cs).map (Lexer.shift n)).mapError (LexError.shift n) := by
  fun_induction skipGap gap pos cs with
  | case1 pos cs ih =>
    rw [← ih, Nat.add_right_comm]
    simp only [Gap.shift, skipGap]
  | case2 pos cs ih =>
    rw [← ih, Nat.add_right_comm]
    simp only [Gap.shift, skipGap]
  | case3 pos c cs _ _ hblank ih =>
    rw [← ih, Nat.add_right_comm]
    exact skipGap_blank hblank
  | case4 pos c cs hline hblock hblank =>
    rw [Gap.shift, skipGap, if_neg hblank]
    · rfl
    · exact hline
    · exact hblock
  | case5 pos cs ih =>
    rw [← ih, Nat.add_right_comm]
    simp only [Gap.shift, skipGap, if_true]
  | case6 pos c cs hc ih =>
    rw [← ih, Nat.add_right_comm]
    simp only [Gap.shift, skipGap, hc, if_false]
  | case7 start pos cs ih =>
    rw [← ih, Nat.add_right_comm]
    simp only [Gap.shift, skipGap]
  | case8 start pos c cs hclose ih =>
    rw [← ih, Nat.add_right_comm]
    simp only [Gap.shift, skipGap]
  | case9 start pos =>
    have hsize : pos + n - (start + n) = pos - start := by omega
    rw [Gap.shift, skipGap, hsize]
    rfl
  | case10 pos => rfl
  | case11 pos => rfl

theorem accept_shift (kind : Kind) (pos : Nat) (lexeme rest : List Char) :
    accept kind (pos + n) lexeme rest = shiftOutcome n (accept kind pos lexeme rest) := by
  have hpos : pos + n + byteLength lexeme = pos + byteLength lexeme + n := by omega
  rw [accept, hpos]
  rfl

theorem reject_shift (fault : LexFault) (pos : Nat) (lexeme rest : List Char) :
    reject fault (pos + n) lexeme rest = shiftOutcome n (reject fault pos lexeme rest) := by
  have hpos : pos + n + byteLength lexeme = pos + byteLength lexeme + n := by omega
  rw [reject, hpos]
  rfl

theorem scanString_shift (pos : Nat) (cs : List Char) :
    scanString (pos + n) cs = shiftOutcome n (scanString pos cs) := by
  simp only [scanString]
  split
  · exact accept_shift n ..
  · exact reject_shift n ..

theorem scanNumber_shift (pos : Nat) (cs : List Char) :
    scanNumber (pos + n) cs = shiftOutcome n (scanNumber pos cs) := by
  simp only [scanNumber]
  split
  · exact reject_shift n ..
  · split
    · exact accept_shift n ..
    · exact reject_shift n ..

theorem scan_shift (pos : Nat) (cs : List Char) :
    scan (pos + n) cs = shiftOutcome n (scan pos cs) := by
  cases cs with
  | nil => exact accept_shift n ..
  | cons c cs =>
    simp only [scan]
    split
    · exact scanString_shift n pos cs
    · split
      · exact scanNumber_shift n pos (c :: cs)
      · split
        · exact accept_shift n ..
        · split
          · exact accept_shift n ..
          · exact reject_shift n ..

theorem Lexer.next_shift (lexer : Lexer) : (lexer.shift n).next = shiftOutcome n lexer.next := by
  have hskip := skipGap_shift n .blanks lexer.pos lexer.rest
  cases hstart : skipGap .blanks lexer.pos lexer.rest with
  | ok start =>
    rw [hstart] at hskip
    have hlater : skipGap .blanks (lexer.shift n).pos (lexer.shift n).rest = .ok (start.shift n) :=
      hskip
    simp only [Lexer.next, hlater, hstart]
    exact scan_shift n start.pos start.rest
  | error e =>
    rw [hstart] at hskip
    have hlater : skipGap .blanks (lexer.shift n).pos (lexer.shift n).rest = .error (e.shift n) :=
      hskip
    have hstop : (e.shift n).span.stop = e.span.stop + n := e.span.stop_shift n
    simp only [Lexer.next, hlater, hstart, hstop]
    rfl

end

namespace Lexer

variable {lexer after : Lexer} {token : Token} {tokens : List Token} {e : LexError}

theorem Reads.shift (h : lexer.Reads tokens) (n : Nat) :
    (lexer.shift n).Reads (tokens.map (Token.shift n)) := by
  induction h with
  | last h hkind => exact .last (by rw [next_shift, h]; rfl) hkind
  | cons h hkind _ ih => exact .cons (by rw [next_shift, h]; rfl) hkind ih

theorem Fails.shift (h : lexer.Fails tokens e) (n : Nat) :
    (lexer.shift n).Fails (tokens.map (Token.shift n)) (e.shift n) := by
  induction h with
  | here h => exact .here (by rw [next_shift, h]; rfl)
  | cons h hkind _ ih => exact .cons (by rw [next_shift, h]; rfl) hkind ih

/-! ### In front of a line feed -/

/-- The lexer with another line behind what it has not read. -/
def withLine (line : List Char) (lexer : Lexer) : Lexer := ⟨lexer.pos, lexer.rest ++ '\n' :: line⟩

end Lexer

section

variable {kind : Kind} {gap rest line : List Char}

/-- What holds of the first character, if there is one, and of a line feed still holds of the first
character when a line feed follows. -/
theorem head?_append_feed {P : Char → Prop} (h : ∀ c ∈ rest.head?, P c) (hfeed : P '\n') :
    ∀ c ∈ (rest ++ '\n' :: line).head?, P c := by
  cases rest with
  | nil => simpa using hfeed
  | cons d rest => simpa using h

/-- A comment that ends with the text ends before the line feed. -/
theorem IsGap.append_feed (h : IsGap rest gap) : IsGap (rest ++ '\n' :: line) gap := by
  induction h with
  | nil => exact .nil
  | blank hblank _ ih => exact .blank hblank ih
  | line htext hend _ ih =>
    refine .line htext ?_ ih
    rw [← List.append_assoc]
    exact head?_append_feed hend rfl
  | block htext _ ih => exact .block htext ih

theorem Kind.EndsBefore.append_feed (h : kind.EndsBefore rest) (hkind : kind ≠ .endOfSource) :
    kind.EndsBefore (rest ++ '\n' :: line) := by
  have hword : isWordChar '\n' = false := by decide
  cases kind with
  | keyword k => exact head?_append_feed h hword
  | symbol s => exact fun hs => head?_append_feed (h hs) (by decide)
  | integer => exact head?_append_feed h hword
  | string => trivial
  | identifier => exact head?_append_feed h hword
  | endOfSource => exact absurd rfl hkind

end

namespace Lexer

variable {lexer after last : Lexer} {token : Token} {front tokens : List Token} {e : LexError}
  {line : List Char}

/-- A token in front of a line feed is found with it as it is without. -/
theorem next_withLine (h : lexer.next = (.ok token, after)) (hkind : token.kind ≠ .endOfSource) :
    (lexer.withLine line).next = (.ok token, after.withLine line) := by
  obtain ⟨gap, lexeme, hrest, hgap, hspells, hends, hspan, hafter⟩ := next_eq_ok_iff.1 h
  have hgap' : IsGap (lexeme ++ (after.withLine line).rest) gap := by
    have hfeed : IsGap (lexeme ++ after.rest ++ '\n' :: line) gap := hgap.append_feed
    rwa [List.append_assoc] at hfeed
  refine next_eq_ok_iff.2 ⟨gap, lexeme, ?_, hgap', hspells, hends.append_feed hkind, hspan, hafter⟩
  simp [withLine, hrest]

/-- Where the lexer finds the end of its source, it goes over the line feed instead. -/
theorem next_withLine_of_end (h : lexer.next = (.ok token, after))
    (hkind : token.kind = .endOfSource) (line : List Char) :
    token = ⟨.endOfSource, lexer.pos + byteLength lexer.rest, 0⟩ ∧
      (lexer.withLine line).next = next ⟨lexer.pos + byteLength lexer.rest + 1, line⟩ := by
  obtain ⟨gap, lexeme, hrest, hgap, hspells, hends, hspan, -⟩ := next_eq_ok_iff.1 h
  obtain ⟨kind, span⟩ := token
  obtain rfl : kind = .endOfSource := hkind
  obtain rfl : lexeme = [] := hspells
  have hnil : after.rest = [] := hends
  rw [hnil, List.append_nil] at hgap
  rw [hnil, List.append_nil, List.append_nil] at hrest
  rw [← hrest] at hgap hspan
  have hfeed : IsGap ('\n' :: line) lexer.rest := hgap.append_feed
  have hskip : skipGap .blanks (lexer.withLine line).pos (lexer.withLine line).rest =
      skipGap .blanks (lexer.pos + byteLength lexer.rest + 1) line :=
    (skipGap_append hfeed).trans (skipGap_blank (by decide))
  exact ⟨congrArg (Token.mk .endOfSource) hspan, by simp only [next, hskip]⟩

/-- The lexer yields the tokens, none of them the end of its source, and goes on as the other one
does. -/
inductive Passes : Lexer → List Token → Lexer → Prop
  | here {lexer last : Lexer} (h : lexer.next = last.next) : Passes lexer [] last
  | cons {lexer after last : Lexer} {token : Token} {tokens : List Token}
      (h : lexer.next = (.ok token, after)) (hkind : token.kind ≠ .endOfSource)
      (rest : Passes after tokens last) : Passes lexer (token :: tokens) last

theorem Passes.reads (h : lexer.Passes front last) (hlast : last.Reads tokens) :
    lexer.Reads (front ++ tokens) := by
  induction h with
  | here h =>
    cases hlast with
    | last hnext hkind => exact .last (h.trans hnext) hkind
    | cons hnext hkind hrest => exact .cons (h.trans hnext) hkind hrest
  | cons h hkind _ ih => exact .cons h hkind (ih hlast)

theorem Passes.fails (h : lexer.Passes front last) (hlast : last.Fails tokens e) :
    lexer.Fails (front ++ tokens) e := by
  induction h with
  | here h =>
    cases hlast with
    | here hnext => exact .here (h.trans hnext)
    | cons hnext hkind hrest => exact .cons (h.trans hnext) hkind hrest
  | cons h hkind _ ih => exact .cons h hkind (ih hlast)

theorem end_of_next (h : lexer.next = (.ok token, after)) :
    after.pos + byteLength after.rest = lexer.pos + byteLength lexer.rest := by
  obtain ⟨gap, lexeme, hrest, -, -, -, hspan, hafter⟩ := next_eq_ok_iff.1 h
  simp only [hafter, hspan, hrest, Span.stop, byteLength_append]
  omega

/-- A lexer that reads its text to the end reads it in front of another line, too, and then goes on
with that line. -/
theorem Reads.passes (h : lexer.Reads tokens) (line : List Char) :
    ∃ front, tokens = front ++ [⟨.endOfSource, lexer.pos + byteLength lexer.rest, 0⟩] ∧
      (∀ token ∈ front, token.kind ≠ .endOfSource) ∧
      (lexer.withLine line).Passes front ⟨lexer.pos + byteLength lexer.rest + 1, line⟩ := by
  induction h with
  | last h hkind =>
    obtain ⟨rfl, hnext⟩ := next_withLine_of_end h hkind line
    exact ⟨[], rfl, by simp, .here hnext⟩
  | cons h hkind _ ih =>
    obtain ⟨front, rfl, hfront, hpasses⟩ := ih
    rw [end_of_next h] at hpasses ⊢
    exact ⟨_ :: front, rfl, List.forall_mem_cons.2 ⟨hkind, hfront⟩,
      .cons (next_withLine h hkind) hkind hpasses⟩

end Lexer

/-! ### Two texts -/

/-- If a text has tokens, those of the text with a line feed and another text behind it are its own,
without the end, and those of the other text at later places. If the other text has an error, the
whole has this error at the later place. -/
theorem tokenize_join {source : String} {tokens : List Token} (h : tokenize source = .ok tokens)
    (line : String) :
    ∃ front, tokens = front ++ [⟨.endOfSource, source.utf8ByteSize, 0⟩] ∧
      (∀ token ∈ front, token.kind ≠ .endOfSource) ∧
      tokenize (source ++ "\n" ++ line) =
        ((tokenize line).map fun more =>
          front ++ more.map (Token.shift (source.utf8ByteSize + 1))).mapError
            (LexError.shift (source.utf8ByteSize + 1)) := by
  obtain ⟨front, htokens, hfront, hpasses⟩ := (tokenize_eq_ok_iff_reads.1 h).passes line.toList
  have hsize : (Lexer.ofSource source).pos + byteLength (Lexer.ofSource source).rest =
      source.utf8ByteSize := by
    simp [Lexer.ofSource, byteLength_toList]
  have hjoin : (Lexer.ofSource source).withLine line.toList =
      .ofSource (source ++ "\n" ++ line) := by
    simp [Lexer.withLine, Lexer.ofSource]
  have hline : ⟨source.utf8ByteSize + 1, line.toList⟩ =
      (Lexer.ofSource line).shift (source.utf8ByteSize + 1) := by
    simp [Lexer.shift, Lexer.ofSource]
  rw [hsize, hjoin, hline] at hpasses
  rw [hsize] at htokens
  refine ⟨front, htokens, hfront, ?_⟩
  -- Behind the line feed the lexer is that of the other text, only later.
  cases hmore : tokenize line with
  | ok more =>
    have hreads := (tokenize_eq_ok_iff_reads.1 hmore).shift (source.utf8ByteSize + 1)
    exact tokenize_eq_ok_iff_reads.2 (hpasses.reads hreads)
  | error e =>
    obtain ⟨_, hfails, -⟩ := exists_fails_of_tokenize hmore
    exact tokenize_of_fails (hpasses.fails (hfails.shift (source.utf8ByteSize + 1)))

/-- A slash and a star make no comment over a line feed, and a comment that has no end has its place
in the whole. -/
theorem tokenize_join_slash :
    let slash : List Token := [⟨.identifier, 0, 1⟩, ⟨.symbol .slash, 1, 1⟩]
    tokenize "x/" = .ok (slash ++ [⟨.endOfSource, 2, 0⟩]) ∧
      tokenize ("x/" ++ "\n" ++ "* y") = .ok (slash ++
        [⟨.symbol .star, 3, 1⟩, ⟨.identifier, 5, 1⟩, ⟨.endOfSource, 6, 0⟩]) ∧
      tokenize ("x/" ++ "\n" ++ "/* y") = .error ⟨.unterminatedComment, 3, 4⟩ := by
  intro slash
  have hslash : tokenize "x/" = .ok (slash ++ [⟨.endOfSource, 2, 0⟩]) :=
    tokenize_eq_ok_iff_reads.2 (.cons rfl (by decide) (.cons rfl (by decide) (.last rfl rfl)))
  have hstar : tokenize "* y" = .ok [⟨.symbol .star, 0, 1⟩, ⟨.identifier, 2, 1⟩,
      ⟨.endOfSource, 3, 0⟩] :=
    tokenize_eq_ok_iff_reads.2 (.cons rfl (by decide) (.cons rfl (by decide) (.last rfl rfl)))
  have hopen : tokenize "/* y" = .error ⟨.unterminatedComment, 0, 4⟩ :=
    tokenize_of_fails (.here rfl)
  refine ⟨hslash, ?_, ?_⟩
  · obtain ⟨front, hfront, -, hjoin⟩ := tokenize_join hslash "* y"
    obtain rfl : slash = front := List.append_cancel_right hfront
    rw [hjoin, hstar]
    rfl
  · obtain ⟨_, -, -, hjoin⟩ := tokenize_join hslash "/* y"
    rw [hjoin, hopen]
    rfl

end Jack
