import Jack.Proofs.Token.Gaps

/-!
The tokens of a source, without the lexer: lexemes with gaps between them, each of which cannot be
made longer. `tokenize_eq_ok_iff` says that the lexer finds them, and nothing else.
-/

namespace Jack

/-- The text behind a lexeme of this kind does not go on with it, and no comment starts in it. -/
def Kind.EndsBefore : Kind → List Char → Prop
  | keyword _, rest | integer, rest | identifier, rest => ∀ c ∈ rest.head?, isWordChar c = false
  | symbol s, rest => s = .slash → ∀ c ∈ rest.head?, c ≠ '/' ∧ c ≠ '*'
  | string, _ => True
  | endOfSource, rest => rest = []

variable {pos : Nat} {c : Char} {cs lexeme rest : List Char} {kind : Kind} {token : Token}
  {lexer after : Lexer}

/-! ### Characters -/

theorem isBlank_eq_false_of_isWordChar (h : isWordChar c = true) : isBlank c = false := by
  cases hblank : isBlank c with
  | false => rfl
  | true =>
    simp only [isBlank, Bool.or_eq_true, decide_eq_true_eq] at hblank
    rcases hblank with (((((rfl | rfl) | rfl) | rfl) | rfl) | rfl) | rfl <;> revert h <;> decide

theorem ne_slash_of_isWordChar (h : isWordChar c = true) : c ≠ '/' := by
  rintro rfl
  revert h
  decide

theorem isWordChar_of_isLetter (h : isLetter c = true) : isWordChar c = true := by
  simp [isWordChar, h]

theorem isWordChar_of_isDigit (h : isDigit c = true) : isWordChar c = true := by
  simp [isWordChar, h]

theorem isDigit_eq_false_of_isLetter (h : isLetter c = true) : isDigit c = false := by
  cases hdigit : isDigit c with
  | false => rfl
  | true =>
    simp only [isDigit, Bool.and_eq_true, decide_eq_true_eq] at hdigit
    simp only [isLetter, Bool.or_eq_true, Bool.and_eq_true, decide_eq_true_eq] at h
    rcases h with (⟨ha, -⟩ | ⟨ha, -⟩) | rfl
    · exact absurd (Char.le_trans ha hdigit.2) (by decide)
    · exact absurd (Char.le_trans ha hdigit.2) (by decide)
    · exact absurd hdigit.2 (by decide)

theorem ne_quote_of_isWordChar (h : isWordChar c = true) : c ≠ '"' := by
  rintro rfl
  revert h
  decide

theorem solid_cons (hblank : isBlank c = false)
    (hslash : c = '/' → ∀ d ∈ cs.head?, d ≠ '/' ∧ d ≠ '*') : Solid (c :: cs) := by
  refine ⟨by simpa using hblank, ?_, ?_⟩
  · rintro ⟨cs', hcs⟩
    obtain ⟨rfl, rfl⟩ := List.cons.inj hcs
    exact (hslash rfl '/' rfl).1 rfl
  · rintro ⟨cs', hcs⟩
    obtain ⟨rfl, rfl⟩ := List.cons.inj hcs
    exact (hslash rfl '*' rfl).2 rfl

/-- A stretch of characters of one class, up to the first that is not. -/
theorem span_append {p : Char → Bool} (as bs : List Char) (has : ∀ c ∈ as, p c = true)
    (hbs : ∀ c ∈ bs.head?, p c = false) :
    (as ++ bs).takeWhile p = as ∧ (as ++ bs).dropWhile p = bs := by
  rw [List.takeWhile_append_of_pos has, List.dropWhile_append_of_pos has]
  cases bs with
  | nil => simp
  | cons b bs => simp [hbs b rfl]

/-! ### One token -/

/-- A keyword is a word. -/
theorem Kind.Spells.word {k : Keyword} (h : (Kind.keyword k).Spells lexeme) :
    (∃ c cs, lexeme = c :: cs ∧ isLetter c = true) ∧ ∀ c ∈ lexeme, isWordChar c = true := by
  have htext : String.ofList lexeme = k.text := h
  obtain rfl : lexeme = k.text.toList := by rw [← htext, String.toList_ofList]
  constructor
  · have hhead : k.text.toList.head?.any isLetter = true := by cases k <;> decide
    obtain ⟨c, hc, hletter⟩ := (Option.any_eq_true ..).1 hhead
    obtain ⟨cs, hcs⟩ := List.head?_eq_some_iff.1 hc
    exact ⟨c, cs, hcs, hletter⟩
  · have hall : k.text.toList.all isWordChar = true := by cases k <;> decide
    exact List.all_eq_true.1 hall

theorem scan_word (hletter : isLetter c = true) (hword : ∀ d ∈ c :: cs, isWordChar d = true)
    (hrest : ∀ d ∈ rest.head?, isWordChar d = false) :
    scan pos (c :: cs ++ rest) =
      accept ((Keyword.ofText? (String.ofList (c :: cs))).elim .identifier .keyword) pos
        (c :: cs) rest := by
  have hdigit := isDigit_eq_false_of_isLetter hletter
  have hquote := ne_quote_of_isWordChar (isWordChar_of_isLetter hletter)
  have hscan : scan pos (c :: cs ++ rest) = scanWord pos (c :: cs ++ rest) := by
    simp [scan, hquote, hdigit, hletter]
  obtain ⟨htake, hdrop⟩ := span_append (c :: cs) rest hword hrest
  rw [hscan, scanWord, htake, hdrop]
  cases Keyword.ofText? (String.ofList (c :: cs)) <;> rfl

theorem scan_number {d : Char} {ds : List Char} (hdigits : ∀ e ∈ d :: ds, isDigit e = true)
    (hvalue : decimalValue (d :: ds) ≤ maxInteger)
    (hrest : ∀ e ∈ rest.head?, isWordChar e = false) :
    scan pos (d :: ds ++ rest) = accept .integer pos (d :: ds) rest := by
  have hd : isDigit d = true := hdigits d List.mem_cons_self
  have hquote := ne_quote_of_isWordChar (isWordChar_of_isDigit hd)
  have hscan : scan pos (d :: ds ++ rest) = scanNumber pos (d :: ds ++ rest) := by
    simp [scan, hquote, hd]
  have hdigit (e : Char) (he : e ∈ rest.head?) : isDigit e = false := by
    have hword := hrest e he
    simp only [isWordChar, Bool.or_eq_false_iff] at hword
    exact hword.2
  obtain ⟨htake, hdrop⟩ := span_append (d :: ds) rest hdigits hdigit
  obtain ⟨hnone, -⟩ := span_append [] rest (by simp) hrest
  rw [List.nil_append] at hnone
  rw [hscan, scanNumber, htake, hdrop, hnone]
  simp [hvalue]

/-- A lexeme that ends where it can is read as a token. -/
theorem scan_of_spells (hspells : kind.Spells lexeme) (hends : kind.EndsBefore rest) :
    scan pos (lexeme ++ rest) = accept kind pos lexeme rest := by
  cases kind with
  | endOfSource =>
    obtain rfl : lexeme = [] := hspells
    obtain rfl : rest = [] := hends
    rfl
  | symbol s =>
    obtain rfl : lexeme = [s.char] := hspells
    have hchar : s.char ≠ '"' ∧ isDigit s.char = false ∧ isLetter s.char = false := by
      cases s <;> decide
    simp [scan, hchar, Symbol.ofChar?_char]
  | string =>
    obtain ⟨body, rfl, hbody⟩ := hspells
    obtain ⟨htake, hdrop⟩ := span_append body ('"' :: rest) hbody (by simp [isStringChar])
    simp [scan, scanString, htake, hdrop]
  | integer =>
    obtain ⟨hne, hdigits, hvalue⟩ := hspells
    cases lexeme with
    | nil => exact absurd rfl hne
    | cons d ds => exact scan_number hdigits hvalue hends
  | identifier =>
    obtain ⟨⟨c, cs, rfl, hletter⟩, hword, hnone⟩ := hspells
    rw [scan_word hletter hword hends, hnone]
    rfl
  | keyword k =>
    obtain ⟨⟨c, cs, rfl, hletter⟩, hword⟩ := hspells.word
    have htext : String.ofList (c :: cs) = k.text := hspells
    rw [scan_word hletter hword hends, htext, Keyword.ofText?_text]
    rfl

/-- A lexeme starts no gap, if it ends where it can. -/
theorem solid_of_spells (hspells : kind.Spells lexeme) (hends : kind.EndsBefore rest) :
    Solid (lexeme ++ rest) := by
  have hstart {c : Char} {cs : List Char} (hc : isWordChar c = true) : Solid (c :: cs ++ rest) :=
    solid_cons (isBlank_eq_false_of_isWordChar hc)
      fun hslash => absurd hslash (ne_slash_of_isWordChar hc)
  cases kind with
  | endOfSource =>
    obtain rfl : lexeme = [] := hspells
    obtain rfl : rest = [] := hends
    simp [Solid]
  | symbol s =>
    obtain rfl : lexeme = [s.char] := hspells
    have hblank : isBlank s.char = false := by cases s <;> decide
    refine solid_cons hblank fun hslash => hends ?_
    cases s <;> first | rfl | (revert hslash; decide)
  | string =>
    obtain ⟨body, rfl, -⟩ := hspells
    exact solid_cons (by decide) (by simp)
  | integer =>
    obtain ⟨hne, hdigits, -⟩ := hspells
    cases lexeme with
    | nil => exact absurd rfl hne
    | cons d ds => exact hstart (isWordChar_of_isDigit (hdigits d List.mem_cons_self))
  | identifier =>
    obtain ⟨⟨c, cs, rfl, hletter⟩, -⟩ := hspells
    exact hstart (isWordChar_of_isLetter hletter)
  | keyword k =>
    obtain ⟨⟨c, cs, rfl, hletter⟩, -⟩ := hspells.word
    exact hstart (isWordChar_of_isLetter hletter)

theorem head?_dropWhile {p : Char → Bool} : ∀ d ∈ (cs.dropWhile p).head?, p d = false := by
  intro d hd
  have hnot := List.head?_dropWhile_not p cs
  rw [Option.mem_def.1 hd] at hnot
  simpa using hnot

theorem scanNumber_endsBefore (h : scanNumber pos cs = (.ok token, after)) :
    token.kind.EndsBefore after.rest := by
  simp only [scanNumber] at h
  split at h
  · simp [reject] at h
  next hword =>
    split at h
    · simp only [accept, Prod.mk.injEq, Except.ok.injEq] at h
      obtain ⟨rfl, rfl⟩ := h
      intro d hd
      obtain ⟨ds, hds⟩ : ∃ ds, cs.dropWhile isDigit = d :: ds := List.head?_eq_some_iff.1 hd
      rw [hds] at hword
      simpa [List.takeWhile_cons] using hword
    · simp [reject] at h

theorem scanWord_endsBefore (h : scanWord pos cs = (.ok token, after)) :
    token.kind.EndsBefore after.rest := by
  simp only [scanWord, accept, Prod.mk.injEq, Except.ok.injEq] at h
  obtain ⟨rfl, rfl⟩ := h
  cases Keyword.ofText? (String.ofList (cs.takeWhile isWordChar)) with
  | none => exact head?_dropWhile
  | some k => exact head?_dropWhile

/-- A token that is read ends where it can. -/
theorem scan_endsBefore (hsolid : Solid cs) (h : scan pos cs = (.ok token, after)) :
    token.kind.EndsBefore after.rest := by
  cases cs with
  | nil =>
    simp only [scan, accept, Prod.mk.injEq, Except.ok.injEq] at h
    obtain ⟨rfl, rfl⟩ := h
    rfl
  | cons c cs =>
    simp only [scan] at h
    split at h
    · simp only [scanString] at h
      split at h
      · simp only [accept, Prod.mk.injEq, Except.ok.injEq] at h
        obtain ⟨rfl, rfl⟩ := h
        trivial
      · simp [reject] at h
    · split at h
      · exact scanNumber_endsBefore h
      · split at h
        · exact scanWord_endsBefore h
        · split at h
          next s hs =>
            simp only [accept, Prod.mk.injEq, Except.ok.injEq] at h
            obtain ⟨rfl, rfl⟩ := h
            rintro rfl d hd
            obtain rfl : '/' = c := Symbol.ofChar?_eq_some_iff.1 hs
            obtain ⟨ds, rfl⟩ := List.head?_eq_some_iff.1 hd
            constructor
            · rintro rfl
              exact hsolid.2.1 ⟨ds, rfl⟩
            · rintro rfl
              exact hsolid.2.2 ⟨ds, rfl⟩
          · simp [reject] at h

namespace Lexer

/-- The lexer goes over a gap and takes the lexeme behind it, if this ends where it can. -/
theorem next_eq_ok_iff : lexer.next = (.ok token, after) ↔
    ∃ gap lexeme, lexer.rest = gap ++ (lexeme ++ after.rest) ∧ IsGap (lexeme ++ after.rest) gap ∧
      token.kind.Spells lexeme ∧ token.kind.EndsBefore after.rest ∧
      token.span = ⟨lexer.pos + byteLength gap, byteLength lexeme⟩ ∧
      after.pos = token.span.stop := by
  constructor
  · intro h
    simp only [next] at h
    split at h
    next start hstart =>
      obtain ⟨hsolid, gap, hrest, hgap, hpos⟩ := skipGap_eq_ok_iff.1 hstart
      obtain ⟨lexeme, hcs, hspan, hafter, hspells⟩ := scan_accepts h
      rw [hcs] at hrest hgap
      rw [hpos] at hspan hafter
      refine ⟨gap, lexeme, hrest, hgap, hspells, scan_endsBefore hsolid h, hspan, ?_⟩
      rw [hafter, hspan, Span.stop]
    · simp at h
  · rintro ⟨gap, lexeme, hrest, hgap, hspells, hends, hspan, hafter⟩
    have hskip : skipGap .blanks lexer.pos lexer.rest =
        .ok ⟨lexer.pos + byteLength gap, lexeme ++ after.rest⟩ := by
      rw [hrest]
      exact skipGap_of_isGap hgap (solid_of_spells hspells hends)
    simp only [next, hskip, scan_of_spells hspells hends, accept, ← hspan]
    rw [hspan, Span.stop] at hafter
    rw [← hafter]

end Lexer

/-! ### Places of tokens -/

/-- A gap stands between the two bytes of the source. -/
def IsGapBetween (source : String) (start stop : Nat) : Prop :=
  ∃ text rest, Lexer.StandsIn source ⟨start, text ++ rest⟩ ∧ start + byteLength text = stop ∧
    IsGap rest text

/-- Before each token there is a gap, from byte `pos` or from the end of the token before it. -/
def Spaced (source : String) : Nat → List Token → Prop
  | _, [] => True
  | pos, token :: tokens =>
    IsGapBetween source pos token.span.index ∧ Spaced source token.span.stop tokens

/-- The token ends where it can. -/
def Token.EndsIn (source : String) (token : Token) : Prop :=
  ∀ rest, Lexer.StandsIn source ⟨token.span.stop, rest⟩ → token.kind.EndsBefore rest

/-- The tokens of a source from byte `pos` on. -/
structure TokenisesFrom (source : String) (pos : Nat) (tokens : List Token) : Prop where
  last : ∃ front, tokens = front ++ [⟨.endOfSource, source.utf8ByteSize, 0⟩] ∧
    ∀ token ∈ front, token.kind ≠ .endOfSource ∧ 0 < token.span.size
  ordered : tokens.Pairwise fun token token' => token.span.stop ≤ token'.span.index
  lies : ∀ token ∈ tokens, token.LiesIn source
  spaced : Spaced source pos tokens
  ends : ∀ token ∈ tokens, token.EndsIn source

variable {source : String} {tokens : List Token}

theorem eq_nil_of_byteLength_eq_zero (h : byteLength cs = 0) : cs = [] := by
  cases cs with
  | nil => rfl
  | cons c cs =>
    have hpos := c.utf8Size_pos
    rw [byteLength_cons] at h
    omega

/-- There is one text from a byte of the source on. -/
theorem Lexer.StandsIn.rest_eq {rest' : List Char} (h : StandsIn source ⟨pos, rest⟩)
    (h' : StandsIn source ⟨pos, rest'⟩) : rest = rest' := by
  obtain ⟨seen, hseen, hlen⟩ := h
  obtain ⟨seen', hseen', hlen'⟩ := h'
  have hlength : byteLength seen = byteLength seen' := hlen.trans hlen'.symm
  rcases List.append_eq_append_iff.1 (hseen.symm.trans hseen') with
    ⟨more, rfl, hrest⟩ | ⟨more, rfl, hrest⟩
  · obtain rfl : more = [] := by
      apply eq_nil_of_byteLength_eq_zero
      rw [byteLength_append] at hlength
      omega
    simpa using hrest
  · obtain rfl : more = [] := by
      apply eq_nil_of_byteLength_eq_zero
      rw [byteLength_append] at hlength
      omega
    simpa using hrest.symm

theorem Token.LiesIn.exists_standsIn (h : token.LiesIn source) :
    ∃ lexeme rest, Lexer.StandsIn source ⟨token.span.index, lexeme ++ rest⟩ ∧
      byteLength lexeme = token.span.size ∧ token.kind.Spells lexeme := by
  obtain ⟨lexeme, hfragment, hspells⟩ := h
  obtain ⟨before, behind, hsource, hbefore, hlexeme⟩ := Span.fragment?_eq_some_iff.1 hfragment
  refine ⟨lexeme, behind.toList, ⟨before.toList, ?_, ?_⟩, ?_, hspells⟩
  · simp [hsource]
  · rw [byteLength_toList, hbefore]
  · rw [← hlexeme, utf8ByteSize_ofList]

/-- A token that lies in the source where it can end is what the lexer finds behind a gap. -/
theorem Lexer.next_iff_places (hin : lexer.StandsIn source) :
    (∃ after, lexer.next = (.ok token, after)) ↔
      IsGapBetween source lexer.pos token.span.index ∧ token.LiesIn source ∧
        token.EndsIn source := by
  constructor
  · rintro ⟨after, h⟩
    obtain ⟨hlies, hafter⟩ := next_liesIn hin h
    obtain ⟨gap, lexeme, hrest, hgap, -, hends, hspan, hpos⟩ := next_eq_ok_iff.1 h
    refine ⟨⟨gap, _, ?_, ?_, hgap⟩, hlies, ?_⟩
    · rw [← hrest]
      exact hin
    · rw [hspan]
    · intro rest hstands
      rw [← hpos] at hstands
      rwa [hstands.rest_eq hafter]
  · rintro ⟨⟨gap, rest, hgapin, hindex, hgap⟩, hlies, hends⟩
    obtain ⟨lexeme, behind, hstands, hsize, hspells⟩ := hlies.exists_standsIn
    have hrest : lexer.rest = gap ++ rest := hin.rest_eq hgapin
    have hskip : StandsIn source ⟨token.span.index, rest⟩ := hgapin.skip rfl hindex.symm
    obtain rfl : rest = lexeme ++ behind := hskip.rest_eq hstands
    have hbehind : StandsIn source ⟨token.span.stop, behind⟩ :=
      hstands.skip rfl (by rw [hsize, Span.stop])
    refine ⟨⟨token.span.stop, behind⟩, next_eq_ok_iff.2
      ⟨gap, lexeme, hrest, hgap, hspells, hends behind hbehind, ?_, rfl⟩⟩
    rw [hindex, hsize]

/-- The end of the source has its place behind all text. -/
theorem eq_end (hkind : token.kind = .endOfSource) (hlies : token.LiesIn source)
    (hends : token.EndsIn source) : token = ⟨.endOfSource, source.utf8ByteSize, 0⟩ := by
  obtain ⟨lexeme, rest, hstands, hsize, hspells⟩ := hlies.exists_standsIn
  rw [hkind] at hspells
  obtain rfl : lexeme = [] := hspells
  have hstop : token.span.stop = token.span.index := by
    rw [Span.stop, ← hsize, byteLength_nil, Nat.add_zero]
  have hrest := hends rest (by rwa [hstop])
  rw [hkind] at hrest
  obtain rfl : rest = [] := hrest
  obtain ⟨seen, hseen, hindex⟩ := hstands
  have hsource : source.utf8ByteSize = token.span.index := by
    rw [← byteLength_toList, hseen, List.append_nil, List.append_nil, hindex]
  obtain ⟨kind, index, size⟩ := token
  simp_all

theorem Kind.Spells.ne_nil (h : kind.Spells lexeme) (hkind : kind ≠ .endOfSource) :
    lexeme ≠ [] := by
  rintro rfl
  cases kind with
  | endOfSource => exact hkind rfl
  | keyword k =>
    obtain ⟨⟨c, cs, hcs, -⟩, -⟩ := h.word
    simp at hcs
  | symbol s => simp [Spells] at h
  | integer => exact h.1 rfl
  | string =>
    obtain ⟨body, hbody, -⟩ := h
    simp at hbody
  | identifier =>
    obtain ⟨⟨c, cs, hcs, -⟩, -⟩ := h
    simp at hcs

theorem Token.LiesIn.size_pos (h : token.LiesIn source) (hkind : token.kind ≠ .endOfSource) :
    0 < token.span.size := by
  obtain ⟨lexeme, rest, -, hsize, hspells⟩ := h.exists_standsIn
  have hne := hspells.ne_nil hkind
  rw [← hsize]
  apply Nat.pos_of_ne_zero
  intro hzero
  exact hne (eq_nil_of_byteLength_eq_zero hzero)

theorem Spaced.le (h : Spaced source pos tokens) : ∀ token ∈ tokens, pos ≤ token.span.index := by
  induction tokens generalizing pos with
  | nil => simp
  | cons first tokens ih =>
    obtain ⟨⟨gap, rest, -, hindex, -⟩, hrest⟩ := h
    intro token hmem
    rcases List.mem_cons.1 hmem with rfl | hmem
    · omega
    · have hle := ih hrest token hmem
      rw [Span.stop] at hle
      omega

namespace TokenisesFrom

theorem end_iff (hkind : token.kind = .endOfSource) :
    TokenisesFrom source pos (token :: tokens) ↔ tokens = [] ∧
      IsGapBetween source pos token.span.index ∧ token.LiesIn source ∧ token.EndsIn source := by
  constructor
  · intro h
    obtain ⟨front, htokens, hfront⟩ := h.last
    cases front with
    | nil =>
      obtain ⟨-, rfl⟩ := List.cons.inj htokens
      exact ⟨rfl, h.spaced.1, h.lies token List.mem_cons_self, h.ends token List.mem_cons_self⟩
    | cons t front =>
      obtain ⟨rfl, -⟩ := List.cons.inj htokens
      exact absurd hkind (hfront token List.mem_cons_self).1
  · rintro ⟨rfl, hgap, hlies, hends⟩
    exact ⟨⟨[], by rw [eq_end hkind hlies hends]; rfl, by simp⟩, by simp, by simpa using hlies,
      ⟨hgap, trivial⟩, by simpa using hends⟩

theorem cons_iff (hkind : token.kind ≠ .endOfSource) :
    TokenisesFrom source pos (token :: tokens) ↔
      (IsGapBetween source pos token.span.index ∧ token.LiesIn source ∧ token.EndsIn source) ∧
        TokenisesFrom source token.span.stop tokens := by
  constructor
  · intro h
    refine ⟨⟨h.spaced.1, h.lies token List.mem_cons_self, h.ends token List.mem_cons_self⟩, ?_⟩
    obtain ⟨front, htokens, hfront⟩ := h.last
    cases front with
    | nil =>
      obtain ⟨rfl, -⟩ := List.cons.inj htokens
      exact absurd rfl hkind
    | cons t front =>
      obtain ⟨rfl, rfl⟩ := List.cons.inj htokens
      refine ⟨⟨front, rfl, fun u hu => hfront u (List.mem_cons_of_mem _ hu)⟩,
        (List.pairwise_cons.1 h.ordered).2, fun u hu => h.lies u (List.mem_cons_of_mem _ hu),
        h.spaced.2, fun u hu => h.ends u (List.mem_cons_of_mem _ hu)⟩
  · rintro ⟨⟨hgap, hlies, hends⟩, h⟩
    obtain ⟨front, rfl, hfront⟩ := h.last
    constructor
    · exact ⟨token :: front, rfl, List.forall_mem_cons.2 ⟨⟨hkind, hlies.size_pos hkind⟩, hfront⟩⟩
    · exact List.pairwise_cons.2 ⟨h.spaced.le, h.ordered⟩
    · exact List.forall_mem_cons.2 ⟨hlies, h.lies⟩
    · exact ⟨hgap, h.spaced⟩
    · exact List.forall_mem_cons.2 ⟨hends, h.ends⟩

end TokenisesFrom

theorem Lexer.reads_iff_tokenisesFrom (hin : lexer.StandsIn source) :
    lexer.Reads tokens ↔ TokenisesFrom source lexer.pos tokens := by
  induction tokens generalizing lexer with
  | nil =>
    constructor
    · intro h
      cases h
    · intro h
      obtain ⟨front, htokens, -⟩ := h.last
      simp at htokens
  | cons token tokens ih =>
    by_cases hkind : token.kind = .endOfSource
    · rw [TokenisesFrom.end_iff hkind, ← next_iff_places hin]
      constructor
      · intro h
        cases h with
        | last h => exact ⟨rfl, _, h⟩
        | cons h hkind' => exact absurd hkind hkind'
      · rintro ⟨rfl, after, h⟩
        exact .last h hkind
    · rw [TokenisesFrom.cons_iff hkind, ← next_iff_places hin]
      have hstep {after : Lexer} (h : lexer.next = (.ok token, after)) :
          after.Reads tokens ↔ TokenisesFrom source token.span.stop tokens := by
        obtain ⟨-, -, -, -, -, -, -, hpos⟩ := next_eq_ok_iff.1 h
        rw [← hpos]
        exact ih (next_liesIn hin h).2
      constructor
      · intro h
        cases h with
        | last h hkind' => exact absurd hkind' hkind
        | cons h _ hrest => exact ⟨⟨_, h⟩, (hstep h).1 hrest⟩
      · rintro ⟨⟨after, h⟩, hrest⟩
        exact .cons h hkind ((hstep h).2 hrest)

/-- A source is read as tokens exactly when they are the lexemes of the source that cannot be made
longer, in order, with nothing but blanks and comments around them, and behind them its end. -/
theorem tokenize_eq_ok_iff (source : String) (tokens : List Token) :
    tokenize source = .ok tokens ↔ TokenisesFrom source 0 tokens := by
  rw [tokenize_eq_ok_iff_reads]
  exact Lexer.reads_iff_tokenisesFrom (Lexer.standsIn_ofSource source)

end Jack
