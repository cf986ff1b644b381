import Jack.Token.Lexer

/-!
Tokens and the text they stand for. `Kind.Spells` says which texts are lexemes of a kind, and
`tokenize_lexemes` that every token of a source but the last is placed at a lexeme of its kind.
-/

namespace Jack

/-- The texts that a token of each kind can have. -/
def Kind.Spells : Kind → List Char → Prop
  | keyword k, cs => String.ofList cs = k.text
  | symbol s, cs => cs = [s.char]
  | integer, cs => cs ≠ [] ∧ (∀ c ∈ cs, isDigit c = true) ∧ decimalValue cs ≤ maxInteger
  | string, cs => ∃ body, cs = '"' :: body ++ ['"'] ∧ ∀ c ∈ body, isStringChar c = true
  | identifier, cs => (∃ c rest, cs = c :: rest ∧ isLetter c = true) ∧
      (∀ c ∈ cs, isWordChar c = true) ∧ Keyword.ofText? (String.ofList cs) = none
  | endOfSource, cs => cs = []

/-- The token lies in the source at a text of its kind. -/
def Token.LiesIn (source : String) (token : Token) : Prop :=
  ∃ lexeme, token.span.fragment? source = some (String.ofList lexeme) ∧ token.kind.Spells lexeme

namespace Lexer

/-- What the lexer has read, `pos` bytes of it, and what it has not make up the source. -/
def StandsIn (source : String) (lexer : Lexer) : Prop :=
  ∃ seen, source.toList = seen ++ lexer.rest ∧ byteLength seen = lexer.pos

theorem standsIn_ofSource (source : String) : (ofSource source).StandsIn source :=
  ⟨[], by simp [ofSource], rfl⟩

/-- Going on behind `part` keeps the lexer in its source. -/
theorem StandsIn.skip {source : String} {lexer after : Lexer} (h : lexer.StandsIn source)
    {part : List Char} (hrest : lexer.rest = part ++ after.rest)
    (hpos : after.pos = lexer.pos + byteLength part) : after.StandsIn source := by
  obtain ⟨seen, hseen, hlen⟩ := h
  exact ⟨seen ++ part, by simp [hseen, hrest], by simp [hlen, hpos]⟩

theorem fragment?_of_standsIn {source : String} {lexer : Lexer} (h : lexer.StandsIn source)
    {lexeme rest : List Char} (hrest : lexer.rest = lexeme ++ rest) :
    (⟨lexer.pos, byteLength lexeme⟩ : Span).fragment? source = some (String.ofList lexeme) := by
  obtain ⟨seen, hseen, hlen⟩ := h
  refine Span.fragment?_eq_some_iff.2 ⟨String.ofList seen, String.ofList rest, ?_, ?_, ?_⟩
  · rw [← String.ofList_append, ← String.ofList_append, List.append_assoc, ← hrest, ← hseen,
      String.ofList_toList]
  · rw [utf8ByteSize_ofList, hlen]
  · exact utf8ByteSize_ofList lexeme

theorem skipGap_splits {gap : Gap} {pos : Nat} {cs : List Char} {lexer : Lexer}
    (h : skipGap gap pos cs = .ok lexer) :
    ∃ part, cs = part ++ lexer.rest ∧ lexer.pos = pos + byteLength part := by
  have hslash : '/'.utf8Size = 1 := by decide
  have hstar : '*'.utf8Size = 1 := by decide
  fun_induction skipGap gap pos cs with
  | case1 pos cs ih =>
    obtain ⟨part, rfl, hpos⟩ := ih h
    exact ⟨'/' :: '/' :: part, rfl, by simp only [byteLength_cons]; omega⟩
  | case2 pos cs ih =>
    obtain ⟨part, rfl, hpos⟩ := ih h
    exact ⟨'/' :: '*' :: part, rfl, by simp only [byteLength_cons]; omega⟩
  | case3 pos c cs _ _ hblank ih =>
    obtain ⟨part, rfl, hpos⟩ := ih h
    exact ⟨c :: part, rfl, by simp only [byteLength_cons]; omega⟩
  | case4 pos c cs _ _ hblank =>
    obtain rfl := Except.ok.inj h
    exact ⟨[], rfl, rfl⟩
  | case5 pos cs ih =>
    obtain ⟨part, rfl, hpos⟩ := ih h
    have hnewline : '\n'.utf8Size = 1 := by decide
    exact ⟨'\n' :: part, rfl, by simp only [byteLength_cons, hnewline]; omega⟩
  | case6 pos c cs hc ih =>
    obtain ⟨part, rfl, hpos⟩ := ih h
    exact ⟨c :: part, rfl, by simp only [byteLength_cons]; omega⟩
  | case7 start pos cs ih =>
    obtain ⟨part, rfl, hpos⟩ := ih h
    exact ⟨'*' :: '/' :: part, rfl, by simp only [byteLength_cons]; omega⟩
  | case8 start pos c cs _ ih =>
    obtain ⟨part, rfl, hpos⟩ := ih h
    exact ⟨c :: part, rfl, by simp only [byteLength_cons]; omega⟩
  | case9 start pos => cases h
  | case10 pos =>
    obtain rfl := Except.ok.inj h
    exact ⟨[], rfl, rfl⟩
  | case11 pos =>
    obtain rfl := Except.ok.inj h
    exact ⟨[], rfl, rfl⟩

/-- What a scanner that accepts says of the text in front of it. -/
def Accepts (pos : Nat) (cs : List Char) (token : Token) (after : Lexer) : Prop :=
  ∃ lexeme, cs = lexeme ++ after.rest ∧ token.span = ⟨pos, byteLength lexeme⟩ ∧
    after.pos = pos + byteLength lexeme ∧ token.kind.Spells lexeme

theorem accepts_of_accept {kind : Kind} {pos : Nat} {lexeme rest cs : List Char} {token : Token}
    {after : Lexer} (h : accept kind pos lexeme rest = (.ok token, after))
    (hcs : cs = lexeme ++ rest) (hkind : kind.Spells lexeme) : Accepts pos cs token after := by
  simp only [accept, Prod.mk.injEq, Except.ok.injEq] at h
  obtain ⟨rfl, rfl⟩ := h
  exact ⟨lexeme, hcs, rfl, rfl, hkind⟩

theorem scanString_accepts {pos : Nat} {cs : List Char} {token : Token} {after : Lexer}
    (h : scanString pos cs = (.ok token, after)) : Accepts pos ('"' :: cs) token after := by
  simp only [scanString] at h
  split at h
  · rename_i rest hrest
    refine accepts_of_accept h ?_ ⟨cs.takeWhile isStringChar, rfl, ?_⟩
    · have hsplit := List.takeWhile_append_dropWhile (p := isStringChar) (l := cs)
      rw [hrest] at hsplit
      simp [hsplit]
    · exact List.all_eq_true.1 List.all_takeWhile
  · simp [reject] at h

theorem scanNumber_accepts {pos : Nat} {c : Char} {cs : List Char} {token : Token} {after : Lexer}
    (hc : isDigit c = true) (h : scanNumber pos (c :: cs) = (.ok token, after)) :
    Accepts pos (c :: cs) token after := by
  simp only [scanNumber] at h
  split at h
  · simp [reject] at h
  · split at h
    · rename_i hvalue
      refine accepts_of_accept h (List.takeWhile_append_dropWhile).symm ⟨?_, ?_, hvalue⟩
      · simp [hc]
      · exact List.all_eq_true.1 List.all_takeWhile
    · simp [reject] at h

theorem scanWord_accepts {pos : Nat} {c : Char} {cs : List Char} {token : Token} {after : Lexer}
    (hc : isLetter c = true) (h : scanWord pos (c :: cs) = (.ok token, after)) :
    Accepts pos (c :: cs) token after := by
  have hword : isWordChar c = true := by simp [isWordChar, hc]
  simp only [scanWord] at h
  refine accepts_of_accept h (List.takeWhile_append_dropWhile).symm ?_
  cases hk : Keyword.ofText? (String.ofList ((c :: cs).takeWhile isWordChar)) with
  | some k => exact (Keyword.ofText?_eq_some_iff.1 hk).symm
  | none =>
    refine ⟨⟨c, cs.takeWhile isWordChar, by simp [hword], hc⟩, ?_, hk⟩
    exact List.all_eq_true.1 List.all_takeWhile

theorem scan_accepts {pos : Nat} {cs : List Char} {token : Token} {after : Lexer}
    (h : scan pos cs = (.ok token, after)) : Accepts pos cs token after := by
  cases cs with
  | nil => exact accepts_of_accept h rfl rfl
  | cons c cs =>
    simp only [scan] at h
    split at h
    · rename_i hquote
      subst hquote
      exact scanString_accepts h
    · split at h
      · rename_i hdigit
        exact scanNumber_accepts hdigit h
      · split at h
        · rename_i hletter
          exact scanWord_accepts hletter h
        · split at h
          · rename_i s hs
            have hchar := Symbol.ofChar?_eq_some_iff.1 hs
            exact accepts_of_accept h rfl (congrArg (· :: []) hchar.symm)
          · simp [reject] at h

/-- A token is placed at a lexeme of its kind, and the lexer goes on behind it. -/
theorem next_liesIn {source : String} {lexer after : Lexer} {token : Token}
    (hin : lexer.StandsIn source) (h : lexer.next = (.ok token, after)) :
    token.LiesIn source ∧ after.StandsIn source := by
  simp only [next] at h
  split at h
  · rename_i start hstart
    obtain ⟨part, hrest, hpos⟩ := skipGap_splits hstart
    have hin' : start.StandsIn source := hin.skip hrest hpos
    obtain ⟨lexeme, hcs, hspan, hpos', hspells⟩ := scan_accepts h
    refine ⟨⟨lexeme, ?_, hspells⟩, hin'.skip hcs hpos'⟩
    rw [hspan]
    exact fragment?_of_standsIn hin' hcs
  · simp at h

/-- The tokens that a lexer yields up to the end of its source. -/
inductive Yields (source : String) : List Token → Prop
  | last {token : Token} (kind : token.kind = .endOfSource) (lies : token.LiesIn source) :
      Yields source [token]
  | cons {token : Token} {tokens : List Token} (kind : token.kind ≠ .endOfSource)
      (lies : token.LiesIn source) (rest : Yields source tokens) : Yields source (token :: tokens)

variable {lexer after : Lexer} {token : Token}

/-- The lexer yields the tokens, the last of them the end of its source. -/
inductive Reads : Lexer → List Token → Prop
  | last {lexer after : Lexer} {token : Token} (h : lexer.next = (.ok token, after))
      (hkind : token.kind = .endOfSource) : Reads lexer [token]
  | cons {lexer after : Lexer} {token : Token} {tokens : List Token}
      (h : lexer.next = (.ok token, after)) (hkind : token.kind ≠ .endOfSource)
      (rest : Reads after tokens) : Reads lexer (token :: tokens)

theorem not_reads_of_error {e : LexError} (h : lexer.next = (.error e, after))
    (tokens : List Token) : ¬ lexer.Reads tokens := by
  intro hreads
  cases hreads with
  | last h' | cons h' => simp [h] at h'

theorem reads_iff_of_end (h : lexer.next = (.ok token, after)) (hkind : token.kind = .endOfSource)
    {tokens : List Token} : lexer.Reads tokens ↔ tokens = [token] := by
  constructor
  · intro hreads
    cases hreads with
    | last h' => simp_all
    | cons h' hkind' => simp_all
  · rintro rfl
    exact .last h hkind

theorem reads_iff_of_token (h : lexer.next = (.ok token, after)) (hkind : token.kind ≠ .endOfSource)
    {tokens : List Token} :
    lexer.Reads tokens ↔ ∃ rest, tokens = token :: rest ∧ after.Reads rest := by
  constructor
  · intro hreads
    cases hreads with
    | last h' => simp_all
    | cons h' _ hrest =>
      obtain ⟨heq, rfl⟩ := Prod.mk.inj (h.symm.trans h')
      obtain rfl := Except.ok.inj heq
      exact ⟨_, rfl, hrest⟩
  · rintro ⟨rest, rfl, hrest⟩
    exact .cons h hkind hrest

theorem exists_results_eq (lexer : Lexer) (seen : List (Except LexError Token)) :
    ∃ found, lexer.results seen = seen.reverse ++ found := by
  fun_induction results lexer seen with
  | case1 lexer seen e after h => exact ⟨[.error e], List.reverse_cons⟩
  | case2 lexer seen token after h htoken => exact ⟨[.ok token], List.reverse_cons⟩
  | case3 lexer seen token after h htoken _ ih =>
    obtain ⟨found, hfound⟩ := ih
    exact ⟨.ok token :: found, by simp [hfound]⟩

theorem results_eq_iff {seen : List (Except LexError Token)} {tokens : List Token} :
    lexer.results seen = seen.reverse ++ tokens.map Except.ok ↔ lexer.Reads tokens := by
  fun_induction results lexer seen generalizing tokens with
  | case1 lexer seen e after h =>
    have hnot := not_reads_of_error h tokens
    cases tokens <;> simp [hnot]
  | case2 lexer seen token after h htoken =>
    rw [reads_iff_of_end h htoken, List.reverse_cons, List.append_cancel_left_eq]
    have hiff : [token].map Except.ok = tokens.map (@Except.ok LexError Token) ↔ [token] = tokens :=
      List.map_inj_right fun _ _ => Except.ok.inj
    rw [eq_comm (b := [token])]
    exact hiff
  | case3 lexer seen token after h htoken _ ih =>
    rw [reads_iff_of_token h htoken]
    constructor
    · intro heq
      obtain ⟨found, hfound⟩ := after.exists_results_eq (.ok token :: seen)
      rw [hfound, List.reverse_cons, List.append_assoc, List.append_cancel_left_eq] at heq
      cases tokens with
      | nil => simp at heq
      | cons t rest =>
        simp only [List.singleton_append, List.map_cons, List.cons.injEq, Except.ok.injEq] at heq
        obtain ⟨rfl, rfl⟩ := heq
        exact ⟨rest, rfl, ih.1 hfound⟩
    · rintro ⟨rest, rfl, hrest⟩
      rw [ih.2 hrest]
      simp

theorem Reads.yields {source : String} {tokens : List Token} (h : lexer.Reads tokens)
    (hin : lexer.StandsIn source) : Yields source tokens := by
  induction h with
  | last h hkind => exact .last hkind (next_liesIn hin h).1
  | cons h hkind _ ih => exact .cons hkind (next_liesIn hin h).1 (ih (next_liesIn hin h).2)

end Lexer

theorem mapM_id_eq_ok {ε α : Type} {xs : List (Except ε α)} {as : List α}
    (h : xs.mapM id = .ok as) : xs = as.map Except.ok := by
  induction xs generalizing as with
  | nil => simp_all [pure, Except.pure]
  | cons x xs ih =>
    cases x with
    | error e => simp [bind, Except.bind] at h
    | ok a =>
      cases hxs : xs.mapM id with
      | error e => simp [hxs, bind, Except.bind] at h
      | ok rest =>
        simp only [List.mapM_cons, id_eq, hxs, bind, Except.bind, pure, Except.pure,
          Except.ok.injEq] at h
        simp [← h, ih hxs]

theorem mapM_id_eq_ok_iff {ε α : Type} {xs : List (Except ε α)} {as : List α} :
    xs.mapM id = .ok as ↔ xs = as.map Except.ok := by
  refine ⟨mapM_id_eq_ok, ?_⟩
  rintro rfl
  induction as with
  | nil => rfl
  | cons a as ih => simp [ih, bind, Except.bind, pure, Except.pure]

theorem tokenize_eq_ok_iff_reads {source : String} {tokens : List Token} :
    tokenize source = .ok tokens ↔ (Lexer.ofSource source).Reads tokens := by
  have hiff := @Lexer.results_eq_iff (.ofSource source) [] tokens
  rw [List.reverse_nil, List.nil_append] at hiff
  rw [tokenize, lexemes, mapM_id_eq_ok_iff, hiff]

theorem tokenize_yields {source : String} {tokens : List Token}
    (h : tokenize source = .ok tokens) : Lexer.Yields source tokens :=
  (tokenize_eq_ok_iff_reads.1 h).yields (Lexer.standsIn_ofSource source)

/-- The tokens of a source are its lexemes, and behind them its end. -/
theorem tokenize_lexemes {source : String} {tokens : List Token}
    (h : tokenize source = .ok tokens) :
    ∃ front last, tokens = front ++ [last] ∧ last.kind = .endOfSource ∧
      ∀ token ∈ front, token.kind ≠ .endOfSource ∧ token.LiesIn source := by
  have hyields := tokenize_yields h
  clear h
  induction hyields with
  | @last token kind lies => exact ⟨[], token, rfl, kind, by simp⟩
  | @cons token tokens kind lies _ ih =>
    obtain ⟨front, last, rfl, hlast, hfront⟩ := ih
    refine ⟨token :: front, last, rfl, hlast, ?_⟩
    intro t ht
    rcases List.mem_cons.1 ht with rfl | ht
    · exact ⟨kind, lies⟩
    · exact hfront t ht

end Jack
