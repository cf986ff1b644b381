import Jack.Proofs.Token.Tokenisation

/-!
Lexical errors. `LexFault.Rejects` says which texts are rejected, for each fault, and
`tokenize_eq_error` that an error stands at such a text, behind tokens that are those of the text in
front of it.
-/

namespace Jack

/-- No token, no comment and no blank starts with the character. -/
def StartsNothing (c : Char) : Prop :=
  isBlank c = false ∧ c ≠ '/' ∧ ∀ (kind : Kind) (cs : List Char), ¬ kind.Spells (c :: cs)

/-- The text has the fault, in front of `rest`. -/
def LexFault.Rejects : LexFault → List Char → List Char → Prop
  | unknownCharacter c, text, _ => text = [c] ∧ StartsNothing c
  | unterminatedString, text, rest => ∃ body, text = '"' :: body ∧
      (∀ c ∈ body, isStringChar c = true) ∧ ∀ c ∈ rest.head?, c = '\n' ∨ c = '\r'
  | unterminatedComment, text, rest => ∃ body, text = '/' :: '*' :: body ∧
      ¬ ['*', '/'] <:+: body ∧ rest = []
  | integerOverflow, text, rest => (∀ c ∈ text, isDigit c = true) ∧
      maxInteger < decimalValue text ∧ ∀ c ∈ rest.head?, isWordChar c = false
  | malformedNumber, text, rest => ∃ digits c word, text = digits ++ c :: word ∧ digits ≠ [] ∧
      (∀ d ∈ digits, isDigit d = true) ∧ isLetter c = true ∧ (∀ d ∈ word, isWordChar d = true) ∧
      ∀ d ∈ rest.head?, isWordChar d = false

variable {pos : Nat} {c : Char} {cs rest rest' : List Char} {kind : Kind} {token : Token}
  {e : LexError} {lexer after : Lexer}

/-! ### Rejected texts -/

/-- What a scanner that rejects says of the text in front of it. -/
def Lexer.Refuses (pos : Nat) (cs : List Char) (e : LexError) : Prop :=
  ∃ text rest, cs = text ++ rest ∧ e.span = ⟨pos, byteLength text⟩ ∧ e.fault.Rejects text rest

theorem Lexer.refuses_of_reject {fault : LexFault} {text : List Char}
    (h : reject fault pos text rest = (.error e, after)) (hcs : cs = text ++ rest)
    (hrejects : fault.Rejects text rest) : Refuses pos cs e := by
  simp only [reject, Prod.mk.injEq, Except.error.injEq] at h
  obtain ⟨rfl, -⟩ := h
  exact ⟨text, rest, hcs, rfl, hrejects⟩

theorem scanString_refuses (h : scanString pos cs = (.error e, after)) :
    Lexer.Refuses pos ('"' :: cs) e := by
  have hsplit := List.takeWhile_append_dropWhile (p := isStringChar) (l := cs)
  simp only [scanString] at h
  split at h
  · simp [accept] at h
  next hquote =>
    refine Lexer.refuses_of_reject h (by simp [hsplit]) ⟨_, rfl, ?_, ?_⟩
    · exact List.all_eq_true.1 List.all_takeWhile
    · intro d hd
      have hend : isStringChar d = false := head?_dropWhile d hd
      have hd' : d ≠ '"' := by
        rintro rfl
        obtain ⟨ds, hds⟩ := List.head?_eq_some_iff.1 hd
        exact hquote ds hds
      by_cases hfeed : d = '\n'
      · exact .inl hfeed
      · exact .inr (by simpa [isStringChar, hd', hfeed] using hend)

theorem scanNumber_refuses (hc : isDigit c = true)
    (h : scanNumber pos (c :: cs) = (.error e, after)) : Lexer.Refuses pos (c :: cs) e := by
  have hdigits : ∀ d ∈ (c :: cs).takeWhile isDigit, isDigit d = true :=
    List.all_eq_true.1 List.all_takeWhile
  have hsplit := List.takeWhile_append_dropWhile (p := isDigit) (l := c :: cs)
  have hnot : ∀ d ∈ ((c :: cs).dropWhile isDigit).head?, isDigit d = false := head?_dropWhile
  simp only [scanNumber] at h
  generalize hrest : (c :: cs).dropWhile isDigit = rest at h hsplit hnot
  split at h
  next hword =>
    -- the word is not empty, and its first character is no digit
    obtain ⟨d, word, hcons⟩ := List.exists_cons_of_ne_nil hword
    have hwords : ∀ x ∈ d :: word, isWordChar x = true := by
      rw [← hcons]
      exact List.all_eq_true.1 List.all_takeWhile
    have hbehind := List.takeWhile_append_dropWhile (p := isWordChar) (l := rest)
    rw [hcons] at h hbehind
    have hd : isLetter d = true := by
      have hword := hwords d List.mem_cons_self
      have hdigit : isDigit d = false := hnot d (by rw [← hbehind]; rfl)
      simpa [isWordChar, hdigit] using hword
    refine Lexer.refuses_of_reject h ?_ ⟨_, d, word, rfl, by simp [hc], hdigits, hd, ?_,
      head?_dropWhile⟩
    · rw [List.append_assoc, hbehind, hsplit]
    · exact fun x hx => hwords x (List.mem_cons_of_mem _ hx)
  next hword =>
    split at h
    · simp [accept] at h
    next hvalue =>
      refine Lexer.refuses_of_reject h hsplit.symm ⟨hdigits, Nat.lt_of_not_le hvalue, ?_⟩
      intro d hd
      obtain ⟨ds, rfl⟩ := List.head?_eq_some_iff.1 hd
      simpa [List.takeWhile_cons] using hword

theorem startsNothing (hblank : isBlank c = false) (hquote : c ≠ '"') (hdigit : isDigit c = false)
    (hletter : isLetter c = false) (hsymbol : Symbol.ofChar? c = none) : StartsNothing c := by
  refine ⟨hblank, ?_, fun kind cs hspells => ?_⟩
  · rintro rfl
    revert hsymbol
    decide
  · cases kind with
    | keyword k =>
      obtain ⟨⟨d, ds, hd, hletter'⟩, -⟩ := hspells.word
      obtain ⟨rfl, -⟩ := List.cons.inj hd
      simp [hletter] at hletter'
    | symbol s =>
      obtain ⟨rfl, -⟩ := List.cons.inj hspells
      simp [Symbol.ofChar?_char] at hsymbol
    | integer =>
      have hc := hspells.2.1 c List.mem_cons_self
      simp [hdigit] at hc
    | string =>
      obtain ⟨body, hbody, -⟩ := hspells
      exact hquote (List.cons.inj hbody).1
    | identifier =>
      obtain ⟨⟨d, ds, hd, hletter'⟩, -⟩ := hspells
      obtain ⟨rfl, -⟩ := List.cons.inj hd
      simp [hletter] at hletter'
    | endOfSource => exact List.cons_ne_nil _ _ hspells

theorem scan_refuses (hsolid : Solid cs) (h : scan pos cs = (.error e, after)) :
    Lexer.Refuses pos cs e := by
  cases cs with
  | nil => simp [scan, accept] at h
  | cons c cs =>
    simp only [scan] at h
    split at h
    next hquote =>
      subst hquote
      exact scanString_refuses h
    next hquote =>
      split at h
      next hdigit => exact scanNumber_refuses hdigit h
      next hdigit =>
        split at h
        · simp [scanWord, accept] at h
        next hletter =>
          split at h
          · simp [accept] at h
          next hsymbol =>
            refine Lexer.refuses_of_reject h rfl ⟨rfl, ?_⟩
            exact startsNothing (hsolid.1 c rfl) hquote (by simpa using hdigit)
              (by simpa using hletter) hsymbol

/-! ### Comments without an end -/

/-- The lexer stops in a gap at a comment that has no end: one behind what is left of the gap, or
the one that it is in. -/
theorem skipGap_eq_error {gap : Gap} (h : skipGap gap pos cs = .error e) :
    (∃ part body, cs = part ++ '/' :: '*' :: body ∧ gap.Leaves ('/' :: '*' :: body) part ∧
      ¬ ['*', '/'] <:+: body ∧
      e = ⟨.unterminatedComment, pos + byteLength part, byteLength ('/' :: '*' :: body)⟩) ∨
    ∃ start, gap = .block start ∧ ¬ ['*', '/'] <:+: cs ∧
      e = ⟨.unterminatedComment, start, pos + byteLength cs - start⟩ := by
  have hslash : '/'.utf8Size = 1 := by decide
  have hstar : '*'.utf8Size = 1 := by decide
  have hnewline : '\n'.utf8Size = 1 := by decide
  fun_induction skipGap gap pos cs with
  | case1 pos cs ih =>
    obtain ⟨_, body, rfl, ⟨text, gap, rfl, htext, hend, hgap⟩, hbody, rfl⟩ | ⟨_, hblock, -⟩ := ih h
    · refine .inl ⟨'/' :: '/' :: (text ++ gap), body, by simp, .line htext hend hgap, hbody, ?_⟩
      simp only [byteLength_cons, byteLength_append, LexError.mk.injEq, Span.mk.injEq, true_and,
        and_true]
      omega
    · cases hblock
  | case2 pos cs ih =>
    obtain ⟨_, body, rfl, ⟨text, gap, rfl, htext, hgap⟩, hbody, rfl⟩ | ⟨_, hblock, hend, rfl⟩ :=
      ih h
    · refine .inl ⟨'/' :: '*' :: (text ++ '*' :: '/' :: gap), body, by simp, .block htext hgap,
        hbody, ?_⟩
      simp only [byteLength_cons, byteLength_append, LexError.mk.injEq, Span.mk.injEq, true_and,
        and_true]
      omega
    · obtain rfl := Gap.block.inj hblock
      refine .inl ⟨[], cs, rfl, .nil, hend, ?_⟩
      simp only [byteLength_cons, byteLength_nil, LexError.mk.injEq, Span.mk.injEq, true_and]
      omega
  | case3 pos c cs _ _ hblank ih =>
    obtain ⟨part, body, rfl, hgap, hbody, rfl⟩ | ⟨_, hblock, -⟩ := ih h
    · refine .inl ⟨c :: part, body, rfl, .blank hblank hgap, hbody, ?_⟩
      simp only [byteLength_cons, Nat.add_assoc]
    · cases hblock
  | case4 pos c cs _ _ _ => cases h
  | case5 pos cs ih =>
    obtain ⟨part, body, rfl, hgap, hbody, rfl⟩ | ⟨_, hblock, -⟩ := ih h
    · refine .inl ⟨'\n' :: part, body, rfl, ⟨[], _, rfl, by simp, by simp, .blank (by decide) hgap⟩,
        hbody, ?_⟩
      simp only [byteLength_cons, hnewline, Nat.add_assoc]
    · cases hblock
  | case6 pos c cs hc ih =>
    obtain ⟨_, body, rfl, ⟨text, gap, rfl, htext, hend, hgap⟩, hbody, rfl⟩ | ⟨_, hblock, -⟩ := ih h
    · refine .inl ⟨c :: (text ++ gap), body, rfl,
        ⟨c :: text, gap, rfl, by simp [htext, Ne.symm hc], hend, hgap⟩, hbody, ?_⟩
      simp only [byteLength_cons, Nat.add_assoc]
    · cases hblock
  | case7 start pos cs ih =>
    obtain ⟨part, body, rfl, hgap, hbody, rfl⟩ | ⟨_, hblock, -⟩ := ih h
    · refine .inl ⟨'*' :: '/' :: part, body, rfl, ⟨[], part, rfl, by simp, hgap⟩, hbody, ?_⟩
      simp only [byteLength_cons, LexError.mk.injEq, Span.mk.injEq, true_and, and_true]
      omega
    · cases hblock
  | case8 start pos c cs hclose ih =>
    -- the comment does not end with this character and the next
    have hcons {text rest : List Char} (hcs : cs = text ++ rest) (h : ¬ ['*', '/'] <:+: text) :
        ¬ ['*', '/'] <:+: c :: text := by
      rw [List.infix_cons_iff, not_or]
      refine ⟨?_, h⟩
      rintro ⟨text', htext'⟩
      obtain ⟨rfl, rfl⟩ := List.cons.inj htext'
      exact hclose _ rfl hcs
    obtain ⟨_, body, hcs, ⟨text, gap, rfl, htext, hgap⟩, hbody, rfl⟩ | ⟨_, hblock, hend, rfl⟩ :=
      ih h
    · subst hcs
      refine .inl ⟨c :: (text ++ '*' :: '/' :: gap), body, rfl,
        ⟨c :: text, gap, rfl, hcons (List.append_assoc ..) htext, hgap⟩, hbody, ?_⟩
      simp only [byteLength_cons, Nat.add_assoc]
    · obtain rfl := Gap.block.inj hblock
      refine .inr ⟨start, rfl, hcons (List.append_nil cs).symm hend, ?_⟩
      simp only [byteLength_cons, Nat.add_assoc]
  | case9 start pos =>
    obtain rfl := Except.error.inj h
    exact .inr ⟨start, rfl, by simp, rfl⟩
  | case10 pos => cases h
  | case11 pos => cases h

namespace Lexer

/-- An error stands behind a gap, at a text with its fault. -/
theorem next_eq_error (h : lexer.next = (.error e, after)) :
    ∃ gap text rest, lexer.rest = gap ++ (text ++ rest) ∧ IsGap (text ++ rest) gap ∧
      e.span = ⟨lexer.pos + byteLength gap, byteLength text⟩ ∧ e.fault.Rejects text rest := by
  simp only [next] at h
  split at h
  next start hstart =>
    obtain ⟨hsolid, gap, hrest, hgap, hpos⟩ := skipGap_eq_ok_iff.1 hstart
    obtain ⟨text, rest, hcs, hspan, hrejects⟩ := scan_refuses hsolid h
    rw [hcs] at hrest hgap
    exact ⟨gap, text, rest, hrest, hgap, hpos ▸ hspan, hrejects⟩
  next hstart =>
    simp only [Prod.mk.injEq, Except.error.injEq] at h
    obtain ⟨rfl, -⟩ := h
    obtain ⟨gap, body, hrest, hgap, hbody, rfl⟩ | ⟨_, hblock, -⟩ := skipGap_eq_error hstart
    · refine ⟨gap, '/' :: '*' :: body, [], by simpa using hrest, ?_, rfl, body, rfl, hbody, rfl⟩
      rw [List.append_nil]
      exact hgap
    · cases hblock

end Lexer

/-! ### The text in front of an error -/

theorem mem_head?_of_front (hfront : rest' <+: rest) (hc : c ∈ rest'.head?) : c ∈ rest.head? := by
  obtain ⟨more, rfl⟩ := hfront
  obtain ⟨cs, rfl⟩ := List.head?_eq_some_iff.1 hc
  rfl

/-- A gap stays one when less text follows it. -/
theorem IsGap.shorten {gap : List Char} (h : IsGap rest gap) (hfront : rest' <+: rest) :
    IsGap rest' gap := by
  induction h with
  | nil => exact .nil
  | blank hblank _ ih => exact .blank hblank ih
  | line htext hend _ ih =>
    refine .line htext (fun c hc => hend c ?_) ih
    exact mem_head?_of_front ((List.prefix_append_right_inj _).2 hfront) hc
  | block htext _ ih => exact .block htext ih

theorem Kind.EndsBefore.shorten (h : kind.EndsBefore rest) (hfront : rest' <+: rest) :
    kind.EndsBefore rest' := by
  have hhead (c : Char) (hc : c ∈ rest'.head?) : c ∈ rest.head? := mem_head?_of_front hfront hc
  cases kind with
  | keyword k => exact fun c hc => h c (hhead c hc)
  | symbol s => exact fun hs c hc => h hs c (hhead c hc)
  | integer => exact fun c hc => h c (hhead c hc)
  | string => trivial
  | identifier => exact fun c hc => h c (hhead c hc)
  | endOfSource =>
    obtain rfl : rest = [] := h
    exact List.prefix_nil.1 hfront

namespace Lexer

/-- The lexer yields the tokens, none of them the end of its source, and then the error. -/
inductive Fails : Lexer → List Token → LexError → Prop
  | here {lexer after : Lexer} {e : LexError} (h : lexer.next = (.error e, after)) :
      Fails lexer [] e
  | cons {lexer after : Lexer} {token : Token} {tokens : List Token} {e : LexError}
      (h : lexer.next = (.ok token, after)) (hkind : token.kind ≠ .endOfSource)
      (rest : Fails after tokens e) : Fails lexer (token :: tokens) e

/-- Up to the end of its source or the first error, a lexer yields tokens. -/
theorem results_eq (lexer : Lexer) (seen : List (Except LexError Token)) :
    (∃ tokens : List Token, lexer.results seen = seen.reverse ++ tokens.map .ok) ∨
      ∃ (tokens : List Token) (e : LexError), lexer.Fails tokens e ∧
        lexer.results seen = seen.reverse ++ (tokens.map .ok ++ [.error e]) := by
  fun_induction results lexer seen with
  | case1 lexer seen e after h => exact .inr ⟨[], e, .here h, List.reverse_cons⟩
  | case2 lexer seen token after h htoken => exact .inl ⟨[token], List.reverse_cons⟩
  | case3 lexer seen token after h htoken _ ih =>
    obtain ⟨tokens, htokens⟩ | ⟨tokens, e, hfails, htokens⟩ := ih
    · exact .inl ⟨token :: tokens, by simp [htokens]⟩
    · exact .inr ⟨token :: tokens, e, .cons h htoken hfails, by simp [htokens]⟩

theorem Fails.results_eq {tokens : List Token} (h : lexer.Fails tokens e)
    (seen : List (Except LexError Token)) :
    lexer.results seen = seen.reverse ++ (tokens.map .ok ++ [.error e]) := by
  induction h generalizing seen with
  | here h =>
    rw [results]
    split <;> simp_all
  | cons h hkind _ ih =>
    rw [results]
    split <;> simp_all

/-- A lexer that has only the text in front of the error reads the same tokens, and then the end. -/
theorem Fails.reads_front {tokens : List Token} (h : lexer.Fails tokens e) :
    ∃ front text rest, lexer.rest = front ++ (text ++ rest) ∧
      e.span = ⟨lexer.pos + byteLength front, byteLength text⟩ ∧ e.fault.Rejects text rest ∧
      Reads ⟨lexer.pos, front⟩ (tokens ++ [⟨.endOfSource, lexer.pos + byteLength front, 0⟩]) := by
  induction h with
  | @here lexer after e h =>
    obtain ⟨gap, text, rest, hrest, hgap, hspan, hrejects⟩ := next_eq_error h
    have hnext : next ⟨lexer.pos, gap⟩ = (.ok ⟨.endOfSource, lexer.pos + byteLength gap, 0⟩,
        ⟨lexer.pos + byteLength gap, []⟩) :=
      next_eq_ok_iff.2 ⟨gap, [], by simp, hgap.shorten List.nil_prefix, rfl, rfl, rfl, rfl⟩
    exact ⟨gap, text, rest, hrest, hspan, hrejects, .last hnext rfl⟩
  | @cons lexer after token tokens e h hkind _ ih =>
    obtain ⟨gap, lexeme, hrest, hgap, hspells, hends, hspan, hafter⟩ := next_eq_ok_iff.1 h
    obtain ⟨front, text, rest, hbehind, hspan', hrejects, hreads⟩ := ih
    have hfront : front <+: after.rest := ⟨text ++ rest, hbehind.symm⟩
    have hpos : after.pos + byteLength front =
        lexer.pos + byteLength (gap ++ (lexeme ++ front)) := by
      simp only [hafter, hspan, Span.stop, byteLength_append]
      omega
    refine ⟨gap ++ (lexeme ++ front), text, rest, by simp [hrest, hbehind], hpos ▸ hspan',
      hrejects, ?_⟩
    rw [← hpos]
    have hgap' := hgap.shorten ((List.prefix_append_right_inj _).2 hfront)
    have hnext : next ⟨lexer.pos, gap ++ (lexeme ++ front)⟩ = (.ok token, ⟨after.pos, front⟩) :=
      next_eq_ok_iff.2 ⟨gap, lexeme, rfl, hgap', hspells, hends.shorten hfront, hspan, hafter⟩
    exact .cons hnext hkind hreads

end Lexer

variable {source : String}

theorem mapM_id_of_error {ε α : Type} (as : List α) (e : ε) :
    (as.map Except.ok ++ [Except.error e]).mapM id = .error e := by
  induction as with
  | nil => rfl
  | cons a as ih => simp [ih, bind, Except.bind]

theorem exists_fails_of_tokenize (h : tokenize source = .error e) :
    ∃ tokens, (Lexer.ofSource source).Fails tokens e ∧
      lexemes source = tokens.map .ok ++ [.error e] := by
  obtain ⟨tokens, htokens⟩ | ⟨tokens, e', hfails, htokens⟩ :=
    (Lexer.ofSource source).results_eq []
  · have hok : tokenize source = .ok tokens := mapM_id_eq_ok_iff.2 htokens
    simp [hok] at h
  · have herror : tokenize source = .error e' := by
      rw [tokenize, lexemes, htokens]
      exact mapM_id_of_error tokens e'
    obtain rfl : e' = e := Except.error.inj (herror.symm.trans h)
    exact ⟨tokens, hfails, htokens⟩

theorem tokenize_of_fails {tokens : List Token} (h : (Lexer.ofSource source).Fails tokens e) :
    tokenize source = .error e := by
  rw [tokenize, lexemes, h.results_eq]
  exact mapM_id_of_error tokens e

/-- An error is reported at a text that has the fault. What stands in front of it has the tokens
that were found before the error, and behind them its end. -/
theorem tokenize_eq_error (h : tokenize source = .error e) :
    ∃ front text rest tokens, source.toList = front ++ (text ++ rest) ∧
      e.span = ⟨byteLength front, byteLength text⟩ ∧ e.fault.Rejects text rest ∧
      lexemes source = tokens.map .ok ++ [.error e] ∧
      tokenize (String.ofList front) =
        .ok (tokens ++ [⟨.endOfSource, byteLength front, 0⟩]) := by
  obtain ⟨tokens, hfails, hlexemes⟩ := exists_fails_of_tokenize h
  obtain ⟨front, text, rest, hrest, hspan, hrejects, hreads⟩ := hfails.reads_front
  have hzero : (Lexer.ofSource source).pos + byteLength front = byteLength front := Nat.zero_add _
  rw [hzero] at hspan hreads
  refine ⟨front, text, rest, tokens, hrest, hspan, hrejects, hlexemes, ?_⟩
  have hfront : Lexer.ofSource (String.ofList front) = ⟨0, front⟩ := by simp [Lexer.ofSource]
  rw [tokenize_eq_ok_iff_reads, hfront]
  exact hreads

/-- A number that runs into a word is rejected with it, behind a name and a sign. -/
theorem tokenize_malformedNumber :
    let source := "x + 99999y;"
    let e : LexError := ⟨.malformedNumber, 4, 6⟩
    tokenize source = .error e ∧
      ∃ front text rest tokens, source.toList = front ++ (text ++ rest) ∧
        e.span = ⟨byteLength front, byteLength text⟩ ∧ e.fault.Rejects text rest ∧
        lexemes source = tokens.map .ok ++ [.error e] ∧
        tokenize (String.ofList front) =
          .ok (tokens ++ [⟨.endOfSource, byteLength front, 0⟩]) := by
  intro source e
  have herror : Except.casesOn (motive := fun _ => Option LexError) (tokenize source) some
      (fun _ => none) = some e := by decide +kernel
  cases h : tokenize source with
  | ok tokens => simp [h] at herror
  | error e' =>
    obtain rfl : e' = e := by simpa [h] using herror
    exact ⟨rfl, tokenize_eq_error h⟩

end Jack
