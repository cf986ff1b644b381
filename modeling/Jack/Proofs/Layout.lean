import Jack.Proofs.Safety
import Jack.Proofs.Vm.Relocation

/-!
Layout and comments do not matter. Two sources with the same tokens, wherever these stand, compile
to the same code, or both fail for the same reason at corresponding tokens.

No two tokens of a source stand at the same place, so the places of the second source are a function
of those of the first, and `move` takes the one compilation to the other.
-/

namespace Jack

def Cause.move (f : Span → Span) : Cause → Cause
  | lexical e => lexical ⟨e.fault, f e.span⟩
  | syntactic e => syntactic (e.move f)
  | semantic e => semantic (e.move f)

section

variable {f : Span → Span}

theorem SyntaxError.found_move (e : SyntaxError) : (e.move f).found = e.found.move f := by
  cases e <;> rfl

theorem SyntaxError.message_move (e : SyntaxError) : (e.move f).message = e.message := by
  cases e <;> rfl

theorem Cause.span_move (cause : Cause) : (cause.move f).span = f cause.span := by
  cases cause with
  | lexical e => rfl
  | syntactic e => exact congrArg Token.span e.found_move
  | semantic e => rfl

theorem Cause.message_move (cause : Cause) : (cause.move f).message = cause.message := by
  cases cause with
  | lexical e => rfl
  | syntactic e => exact congrArg ("syntax error: " ++ ·) e.message_move
  | semantic e => rfl

/-- A cause has one place, so where that is moved to says it all. -/
theorem Cause.move_eq_move_const (cause : Cause) :
    cause.move f = cause.move fun _ => f cause.span := by
  cases cause with
  | lexical e => rfl
  | syntactic e => cases e <;> rfl
  | semantic e => rfl

end

/-! ### Sources with the same tokens -/

/-- Tokens at different places can be moved to any others of their kinds. -/
theorem exists_move {tokens tokens' : List Token} (hspans : (tokens.map Token.span).Nodup)
    (hkinds : tokens.map Token.kind = tokens'.map Token.kind) :
    ∃ f, tokens' = tokens.map (Token.move f) := by
  induction tokens generalizing tokens' with
  | nil =>
    have hnil : tokens' = [] := by simpa using hkinds.symm
    exact ⟨id, by simp [hnil]⟩
  | cons t ts ih =>
    cases tokens' with
    | nil => simp at hkinds
    | cons t' ts' =>
      simp only [List.map_cons, List.cons.injEq] at hkinds
      obtain ⟨hkind, hkinds⟩ := hkinds
      obtain ⟨hfresh, hspans⟩ := List.nodup_cons.1 hspans
      obtain ⟨f, rfl⟩ := ih hspans hkinds
      -- The other tokens do not stand where the first one does, so its place is free to choose.
      refine ⟨Function.update f t.span t'.span, ?_⟩
      have hhead : t' = t.move (Function.update f t.span t'.span) := by
        simp [Token.move, hkind]
      have htail : ∀ u ∈ ts, u.move f = u.move (Function.update f t.span t'.span) := by
        intro u hu
        have hne : u.span ≠ t.span := fun heq => hfresh (heq ▸ List.mem_map_of_mem hu)
        simp [Token.move, Function.update_of_ne hne]
      rw [List.map_cons, ← hhead, List.map_congr_left htail]

section

variable {f : Span → Span} {unit source target : String} {tokens : List Token}

theorem parseTokens_move (htokens : tokenize source = .ok tokens)
    (htexts : ∀ t ∈ tokens, (t.move f).text? target = t.text? source) :
    parseTokens target (tokens.map (Token.move f)) =
      ((parseTokens source tokens).map (ClassDecl.move f)).mapError (SyntaxError.move f) := by
  obtain ⟨front, last, rfl, hlast, -⟩ := tokenize_lexemes htokens
  have hcursor : Cursor.ofTokens target ((front ++ [last]).map (Token.move f)) =
      Cursor.move f target ⟨source, front, last⟩ := by
    rw [List.map_append, List.map_singleton]
    exact Cursor.ofTokens_append hlast
  have hrun := (Reader.unit_relocates maxDepth ⟨source, front, last⟩).run htexts
  rw [parseTokens_eq, parseTokens_eq, hcursor, hrun, Cursor.ofTokens_append hlast]
  cases Reader.unit maxDepth ⟨source, front, last⟩ <;> rfl

theorem parseSource_move (htokens : tokenize source = .ok tokens)
    (htarget : tokenize target = .ok (tokens.map (Token.move f)))
    (htexts : ∀ t ∈ tokens, (t.move f).text? target = t.text? source) :
    parseSource unit target = ((parseSource unit source).map (ClassDecl.move f)).mapError
      fun d => .located unit target (d.cause.move f) := by
  rw [parseSource, parseSource, htokens, htarget]
  simp only [parseTokens_move htokens htexts]
  cases parseTokens source tokens <;> rfl

/-- The compilation of the second source is that of the first one, with errors moved. -/
theorem compileSource_move (htokens : tokenize source = .ok tokens)
    (htarget : tokenize target = .ok (tokens.map (Token.move f)))
    (htexts : ∀ t ∈ tokens, (t.move f).text? target = t.text? source) :
    compileSource unit target =
      (compileSource unit source).mapError fun d => .located unit target (d.cause.move f) := by
  rw [compileSource, compileSource, parseSource_move htokens htarget htexts]
  cases parseSource unit source with
  | error d => rfl
  | ok decl =>
    have hcompile := Generator.compile_move (f := f) decl .empty
    simp only [Except.map, mapError_ok, bind, Except.bind, hcompile]
    cases Generator.empty.compile decl with
    | mk result g => cases result <;> rfl

/-- An error of the compiler is at a token. -/
theorem exists_token_of_compileSource {d : Diagnostic} (htokens : tokenize source = .ok tokens)
    (h : compileSource unit source = .error d) :
    d = .located unit source d.cause ∧ ∃ t ∈ tokens, d.cause.span = t.span := by
  rcases bind_eq_error_iff.1 h with h | ⟨decl, hparse, h⟩
  · rw [parseSource, htokens] at h
    cases hparse : parseTokens source tokens with
    | ok decl => simp [hparse] at h
    | error e =>
      simp only [hparse, Except.error.injEq] at h
      subst h
      exact ⟨rfl, e.found, (parseTokens_error htokens hparse).1, rfl⟩
  · split at h
    next => simp at h
    next e g hcompile =>
      obtain rfl := Except.error.inj h
      have hthis := noThis_of_parseSource hparse
      have hviolation := (Generator.compile_eq_error_iff hthis).1 (congrArg Prod.fst hcompile)
      obtain ⟨x, hx, hspan⟩ :=
        ClassDecl.exists_terminal_of_violation (List.mem_of_mem_head? hviolation)
      have hdecl : decl.tokens = tokens.dropLast := ((parseSource_eq_ok_iff htokens).1 hparse).1.1
      have hmem : x.token ∈ tokens.dropLast := hdecl ▸ List.mem_map_of_mem hx
      exact ⟨rfl, x.token, List.mem_of_mem_dropLast hmem, hspan.symm⟩

end

/-- The second source is rejected for the reason for which the first one is, at the token that
corresponds to that of the first. -/
structure Diagnostic.Corresponds (source target : String) (tokens tokens' : List Token)
    (d d' : Diagnostic) : Prop where
  cause : d'.cause = d.cause.move fun _ => d'.cause.span
  message : d'.cause.message = d.cause.message
  token : ∃ (k : Nat) (t t' : Token), tokens[k]? = some t ∧ tokens'[k]? = some t' ∧
    d.cause.span = t.span ∧ d'.cause.span = t'.span
  unit : d'.unit = d.unit
  location : d.location = Location.ofSpan? d.cause.span source
  location' : d'.location = Location.ofSpan? d'.cause.span target

/-- Sources that differ only in what stands between their tokens compile to the same code, or are
rejected alike. -/
theorem compileSource_ignores_layout {source target : String} {tokens tokens' : List Token}
    (unit : String) (htokens : tokenize source = .ok tokens)
    (htokens' : tokenize target = .ok tokens')
    (hsame : tokens.map (fun t => (t.kind, t.text? source)) =
      tokens'.map fun t => (t.kind, t.text? target)) :
    (∃ code, compileSource unit source = .ok code ∧ compileSource unit target = .ok code) ∨
      ∃ d d', compileSource unit source = .error d ∧ compileSource unit target = .error d' ∧
        d.Corresponds source target tokens tokens' d' := by
  have hkinds : tokens.map Token.kind = tokens'.map Token.kind := by
    simpa [Function.comp_def] using congrArg (List.map Prod.fst) hsame
  obtain ⟨f, rfl⟩ := exists_move (tokenize_spans_nodup htokens) hkinds
  have htexts : ∀ t ∈ tokens, (t.move f).text? target = t.text? source := by
    have htexts := congrArg (List.map Prod.snd) hsame
    simp only [List.map_map, Function.comp_def, List.map_inj_left] at htexts
    exact fun t ht => (htexts t ht).symm
  have hmove : compileSource unit target =
      (compileSource unit source).mapError fun d => .located unit target (d.cause.move f) :=
    compileSource_move htokens htokens' htexts
  cases h : compileSource unit source with
  | ok code => exact .inl ⟨code, rfl, by rw [hmove, h, mapError_ok]⟩
  | error d =>
    obtain ⟨hd, t, ht, hspan⟩ := exists_token_of_compileSource htokens h
    obtain ⟨k, hk⟩ := List.mem_iff_getElem?.1 ht
    have hk' : (tokens.map (Token.move f))[k]? = some (t.move f) := by simp [hk]
    have hspan' : (d.cause.move f).span = (t.move f).span := by
      rw [Cause.span_move, hspan, Token.span_move]
    have hcause : d.cause.move f = d.cause.move fun _ => (d.cause.move f).span := by
      rw [Cause.span_move]
      exact d.cause.move_eq_move_const
    have htarget : compileSource unit target = .error (.located unit target (d.cause.move f)) := by
      rw [hmove, h, mapError_error]
    refine .inr ⟨d, _, rfl, htarget, ?_⟩
    exact
      { cause := hcause
        message := d.cause.message_move
        token := ⟨k, t, t.move f, hk, hk', hspan, hspan'⟩
        unit := (congrArg Diagnostic.unit hd).symm
        location := congrArg Diagnostic.location hd
        location' := rfl }

/-- A semicolon is missing, also where a comment has one. -/
theorem compileSource_missingSemicolon :
    let source := "class A\x7bfunction int f()\x7breturn 1\x7d\x7d"
    let target := "class A \x7b // one\n  function int f () \x7b\n    return /* ; */ 1\n  \x7d\x7d"
    let e : SyntaxError := .mismatch ⟨.symbol .rightBrace, 33, 1⟩ (.symbol .semicolon)
    ∃ tokens tokens', tokenize source = .ok tokens ∧ tokenize target = .ok tokens' ∧
      tokens.map (fun t => (t.kind, t.text? source)) =
        tokens'.map (fun t => (t.kind, t.text? target)) ∧
      ∃ d d', compileSource "A" source = .error d ∧ compileSource "A" target = .error d' ∧
        d.cause = .syntactic e ∧ d.Corresponds source target tokens tokens' d' := by
  intro source target e
  have hlexemes : (tokenize source).toOption.map (·.map fun t => (t.kind, t.text? source)) =
      (tokenize target).toOption.map (·.map fun t => (t.kind, t.text? target)) := by decide +kernel
  have hcause : Except.casesOn (motive := fun _ => Option Cause) (compileSource "A" source)
      (fun d => some d.cause) (fun _ => none) = some (.syntactic e) := by decide +kernel
  cases htokens : tokenize source with
  | error e =>
    simp [compileSource, parseSource, htokens, bind, Except.bind, Diagnostic.located] at hcause
  | ok tokens =>
    cases htokens' : tokenize target with
    | error e => simp [htokens, htokens', Except.toOption] at hlexemes
    | ok tokens' =>
      simp only [htokens, htokens', Except.toOption, Option.map_some, Option.some.injEq] at hlexemes
      refine ⟨tokens, tokens', rfl, rfl, hlexemes, ?_⟩
      rcases compileSource_ignores_layout "A" htokens htokens' hlexemes with
        ⟨code, hcode, -⟩ | ⟨d, d', hd, hd', hcorresponds⟩
      · simp [hcode] at hcause
      · simp only [hd, Option.some.injEq] at hcause
        exact ⟨d, d', hd, hd', hcause, hcorresponds⟩

end Jack
