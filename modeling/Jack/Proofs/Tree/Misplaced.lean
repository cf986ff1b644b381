import Jack.Proofs.Token.Tokenisation
import Jack.Proofs.Tree.Acceptance
import Jack.Proofs.Tree.Tracking

/-!
Syntax errors point at the first token that cannot be right. A reader that finds a token out of
place has read the front of a class. A class that starts with the tokens up to and including that
one would be read by a reader with levels enough for it, but this one fails with the first.
-/

namespace Jack

namespace Reader

variable {n : Nat} {c : Cursor}

/-! ### What comes before an error -/

/-- A class is not read, or something comes behind it. -/
theorem unit_eq_error {halt : Halt} (h : unit n c = .error halt) :
    classDecl n c = .error halt ∨ ∃ decl c₁, classDecl n c = .ok (decl, c₁) ∧
      c₁.current.kind ≠ .endOfSource ∧ halt = ⟨.mismatch c₁.current .endOfSource, c₁, 0⟩ := by
  have hunit : unit n =
      classDecl n >>= fun decl => expect .endOfSource >>= fun _ => pure decl := rfl
  rw [hunit, bind_apply] at h
  cases hdecl : classDecl n c with
  | error halt' =>
    rw [hdecl] at h
    exact .inl h
  | ok result =>
    obtain ⟨decl, c₁⟩ := result
    simp only [hdecl] at h
    refine .inr ⟨decl, c₁, rfl, ?_⟩
    by_cases hend : c₁.current.kind = .endOfSource
    · have hexpect : expect .endOfSource c₁ = .ok (c₁.current.span, c₁.advance) := by
        simp [expect, Cursor.accept?, hend]
      rw [bind_of_ok hexpect rfl] at h
      cases h
    · have hexpect : expect .endOfSource c₁ =
          .error ⟨.mismatch c₁.current .endOfSource, c₁, 0⟩ := by
        simp [expect, Cursor.accept?, hend]
      rw [bind_of_error hexpect] at h
      exact ⟨hend, (Except.error.inj h).symm⟩

/-- The tokens in front of an error are the front of a class. -/
theorem unit_stops {halt : Halt} (hc : c.Readable) (h : unit n c = .error halt) :
    NamesCurrent halt ∧
      ∃ word rest, word ++ rest ∈ words ClassDecl.terminals ∧ Took c word halt.cursor := by
  have hends := (classDecl_tracks (p := 0) (q := 0) (Nat.le_refl n) c hc).ends
  rcases unit_eq_error h with hdecl | ⟨decl, c₁, hdecl, -, rfl⟩
  · exact hends.error halt hdecl
  · obtain ⟨-, word, hword, htook⟩ := hends.ok decl c₁ hdecl
    exact ⟨⟨rfl, .inl trivial⟩, word, [], by simpa using hword, htook⟩

end Reader

/-! ### What an error excludes -/

/-- A source that has a name, a number and a string. -/
def sampleSource : String := "a0\"\""

/-- A terminal of the same kind, with a value from the sample. -/
def Terminal.sample : Terminal → Terminal
  | keyword k _ => .keyword k ⟨0, 0⟩
  | symbol s _ => .symbol s ⟨0, 0⟩
  | integer _ _ => .integer 0 ⟨1, 1⟩
  | string _ _ => .string "" ⟨2, 2⟩
  | identifier _ _ => .identifier "a" ⟨0, 1⟩

theorem Terminal.kind_sample (x : Terminal) : x.sample.token.kind = x.token.kind := by
  cases x <;> rfl

theorem Terminal.readAs_sample (x : Terminal) : x.sample.ReadAs sampleSource := by
  cases x with
  | keyword k span => trivial
  | symbol s span => trivial
  | integer value span => exact ⟨"0", by decide, by decide⟩
  | string value span => exact (by decide : Token.text? ⟨.string, 2, 2⟩ sampleSource = some "")
  | identifier name span =>
    exact (by decide : Token.text? ⟨.identifier, 0, 1⟩ sampleSource = some "a")

/-- The kinds of every class are those of one over the sample. -/
theorem ClassDecl.exists_sample (decl : ClassDecl) : ∃ decl' : ClassDecl,
    SameKinds decl'.terminals decl.terminals ∧ ∀ x ∈ decl'.terminals, x.ReadAs sampleSource := by
  have hkinds : SameKinds (decl.terminals.map Terminal.sample) decl.terminals := by
    simp [SameKinds, Function.comp_def, Terminal.kind_sample]
  obtain ⟨decl', hdecl', -⟩ := decl.reshapes _ hkinds
  refine ⟨decl', hdecl' ▸ hkinds, fun x hx => ?_⟩
  rw [hdecl'] at hx
  obtain ⟨y, -, rfl⟩ := List.mem_map.1 hx
  exact y.readAs_sample

/-- No class, with the end behind it, starts with the tokens up to and including a misplaced one. -/
theorem Reader.unit_error_excludes {n : Nat} {c : Cursor} {halt : Halt} {word : List Terminal}
    (hc : c.Readable) (h : unit n c = .error halt) (hmisplaced : halt.error.Misplaced)
    (htook : Took c word halt.cursor) (decl : ClassDecl) :
    ¬ word.map (·.token.kind) ++ [halt.cursor.current.kind] <+:
      decl.terminals.map (·.token.kind) ++ [.endOfSource] := by
  rintro ⟨rest', hrest'⟩
  obtain ⟨decl', hkinds, hread⟩ := decl.exists_sample
  let final : Cursor := ⟨sampleSource, [], ⟨.endOfSource, 4, 0⟩⟩
  -- The second reader has levels enough for the class, so it reads the class and stops behind it.
  have hm := Nat.le_max_left n decl'.depth
  have hcovers := classDecl_covers (max n decl'.depth) final decl' (Nat.le_max_right ..) hread
    trivial
  have hreadable : (final.before decl'.terminals).Readable := by
    refine ⟨rfl, fun t ht => ?_⟩
    obtain ⟨x, hx, rfl⟩ : ∃ x ∈ decl'.terminals, x.token = t := by
      simpa [Cursor.before, final] using ht
    exact ⟨x, rfl, hread x hx⟩
  obtain ⟨rest, hrest⟩ := halt.cursor.kinds_eq_cons
  have hagree : Agree rest.length rest'.length c (final.before decl'.terminals) := by
    refine ⟨hreadable, word.map (·.token.kind) ++ [halt.cursor.current.kind], rest, rest', by simp,
      ?_, ?_, rfl, rfl⟩
    · rw [htook.kinds, hrest, List.append_assoc, List.singleton_append]
    · rw [hrest', Cursor.kinds_before, show _ = _ from hkinds]
      rfl
  have hlength : rest.length ≤ halt.cursor.ahead.length := by
    have hkinds := congrArg List.length hrest
    rw [Cursor.length_kinds, List.length_cons] at hkinds
    omega
  have hmirrors := (classDecl_tracks hm c hc).mirrors _ hagree
  rcases unit_eq_error h with hdecl | ⟨decl₁, c₁, hdecl, hcurrent, rfl⟩
  · obtain ⟨halt', hhalt'⟩ := hmirrors.error halt hdecl hmisplaced hlength
    rw [hcovers] at hhalt'
    cases hhalt'
  · obtain ⟨decl₂, c₂, hdecl₂, -, hagree₂⟩ := hmirrors.ok decl₁ c₁ hdecl hlength
    obtain ⟨-, rfl⟩ : decl' = decl₂ ∧ final = c₂ := by simpa [hcovers] using hdecl₂
    exact hcurrent hagree₂.current_kind.symm

/-! ### Whole sources -/

/-- The kinds of the tokens of a class. -/
def Sentence (kinds : List Kind) : Prop :=
  ∃ decl : ClassDecl, decl.tokens.map Token.kind = kinds

theorem Cursor.tokens_eq_cons (c : Cursor) :
    ∃ behind, c.ahead ++ [c.last] = c.current :: behind := by
  obtain ⟨source, ahead, last⟩ := c
  cases ahead with
  | nil => exact ⟨[], rfl⟩
  | cons t ts => exact ⟨ts ++ [last], rfl⟩

/-- The tokens are those taken, the current one, and those behind it. -/
theorem Took.exists_behind {c c' : Cursor} {word : List Terminal} (h : Took c word c') :
    ∃ behind, c.ahead ++ [c.last] = word.map Terminal.token ++ c'.current :: behind := by
  obtain ⟨behind, hbehind⟩ := c'.tokens_eq_cons
  refine ⟨behind, ?_⟩
  rw [← hbehind, h.eq_before]
  simp [Cursor.before]

/-- No two tokens stand at the same place. -/
theorem tokenize_spans_nodup {source : String} {tokens : List Token}
    (h : tokenize source = .ok tokens) : (tokens.map Token.span).Nodup := by
  have htokens := (Lexer.reads_iff_tokenisesFrom (Lexer.standsIn_ofSource source)).1
    (tokenize_eq_ok_iff_reads.1 h)
  obtain ⟨front, rfl, hfront⟩ := htokens.last
  obtain ⟨hordered, -, hlast⟩ := List.pairwise_append.1 htokens.ordered
  have hne {token token' : Token} (hmem : token ∈ front)
      (hle : token.span.stop ≤ token'.span.index) : token.span ≠ token'.span := by
    intro heq
    have hsize := (hfront token hmem).2
    simp only [Span.stop, heq] at hle hsize
    omega
  refine List.pairwise_map.2 (List.pairwise_append.2
    ⟨?_, by simp, fun token hmem token' hmem' => ?_⟩)
  · exact hordered.imp_of_mem fun hmem _ hle => hne hmem hle
  · exact hne hmem (hlast token hmem token' hmem')

theorem tokenize_nodup {source : String} {tokens : List Token} (h : tokenize source = .ok tokens) :
    tokens.Nodup := (tokenize_spans_nodup h).of_map Token.span

theorem Cursor.readable_of_tokenize {source : String} {front : List Token} {last : Token}
    (hlast : last.kind = .endOfSource)
    (hfront : ∀ token ∈ front, token.kind ≠ .endOfSource ∧ token.LiesIn source) :
    (⟨source, front, last⟩ : Cursor).Readable := by
  refine ⟨hlast, fun t ht => ?_⟩
  obtain ⟨x, rfl, hdenotes⟩ := (hfront t ht).2.exists_terminal (hfront t ht).1
  exact ⟨x, rfl, (Terminal.readAs_iff_denotes (hfront _ ht).2).2 hdenotes⟩

/-- Where the tokens cannot be read, the reader has stopped at one of them. -/
theorem exists_halt_of_parseTokens {source : String} {tokens : List Token} {e : SyntaxError}
    (htokens : tokenize source = .ok tokens) (h : parseTokens source tokens = .error e) :
    ∃ (c : Cursor) (halt : Halt), c.Readable ∧ tokens = c.ahead ++ [c.last] ∧
      Reader.unit maxDepth c = .error halt ∧ halt.error = e := by
  obtain ⟨front, last, rfl, hlast, hfront⟩ := tokenize_lexemes htokens
  rw [parseTokens_eq, Cursor.ofTokens_append hlast] at h
  refine ⟨⟨source, front, last⟩, ?_⟩
  cases hunit : Reader.unit maxDepth ⟨source, front, last⟩ with
  | ok result => simp [hunit] at h
  | error halt =>
    simp only [hunit, Except.error.injEq] at h
    exact ⟨halt, Cursor.readable_of_tokenize hlast hfront, rfl, rfl, h⟩

/-- A misplaced token is the first one that cannot be right: what stands before it is the front of a
sentence, and what ends with it is not. If it is the end of the source, what stands before it is no
sentence. -/
theorem parseSource_misplaced {unit source : String} {tokens : List Token} {d : Diagnostic}
    {e : SyntaxError} (htokens : tokenize source = .ok tokens)
    (h : parseSource unit source = .error d) (hcause : d.cause = .syntactic e)
    (hmisplaced : e.Misplaced) :
    e.found ∈ tokens ∧ ∀ i, tokens[i]? = some e.found →
      (∃ kinds, Sentence kinds ∧ (tokens.take i).map Token.kind <+: kinds) ∧
      (∀ kinds, Sentence kinds → ¬ (tokens.take (i + 1)).map Token.kind <+: kinds) ∧
      (e.found.kind = .endOfSource → ¬ Sentence ((tokens.take i).map Token.kind)) := by
  have hnodup := tokenize_nodup htokens
  have hparse : parseTokens source tokens = .error e := by
    simp only [parseSource, htokens] at h
    cases hp : parseTokens source tokens with
    | ok decl => simp [hp] at h
    | error e' =>
      simp only [hp, Except.error.injEq] at h
      subst h
      simpa [Diagnostic.located] using hcause
  obtain ⟨c, halt, hc, rfl, hunit, rfl⟩ := exists_halt_of_parseTokens htokens hparse
  obtain ⟨⟨hfound, -⟩, word, rest, ⟨decl, hdecl⟩, htook⟩ := Reader.unit_stops hc hunit
  have hexcludes := Reader.unit_error_excludes hc hunit hmisplaced htook
  obtain ⟨behind, hall⟩ := htook.exists_behind
  rw [← hfound] at hall
  have hplace : (c.ahead ++ [c.last])[word.length]? = some halt.error.found := by
    rw [hall, List.getElem?_append_right (by simp)]
    simp
  refine ⟨List.mem_of_getElem? hplace, fun i hi => ?_⟩
  obtain ⟨hlt, -⟩ := List.getElem?_eq_some_iff.1 hplace
  obtain rfl : word.length = i := (List.getElem?_inj hlt hnodup).1 (hplace.trans hi.symm)
  have hbefore : (c.ahead ++ [c.last]).take word.length = word.map Terminal.token := by
    rw [hall, List.take_left' (by simp)]
  have hupTo : (c.ahead ++ [c.last]).take (word.length + 1) =
      word.map Terminal.token ++ [halt.error.found] := by
    rw [List.take_add_one, hbefore, hplace]
    rfl
  rw [hbefore, hupTo]
  simp only [hfound, List.map_append, List.map_map, List.map_cons, List.map_nil]
  refine ⟨⟨_, ⟨decl, rfl⟩, rest.map (·.token.kind), ?_⟩, ?_, ?_⟩
  · simp [ClassDecl.tokens, hdecl, Function.comp_def]
  · rintro _ ⟨decl', rfl⟩ hfront
    apply hexcludes decl'
    rw [ClassDecl.tokens, List.map_map] at hfront
    exact hfront.trans (List.prefix_append ..)
  · rintro hend ⟨decl', hdecl'⟩
    apply hexcludes decl'
    have hkinds : decl'.terminals.map (·.token.kind) = word.map (·.token.kind) := by
      simpa [ClassDecl.tokens, Function.comp_def] using hdecl'
    rw [hend, hkinds]

theorem parseSource_missingEqual :
    let source := "class A \x7b function void f() \x7b let x 1; \x7d \x7d"
    let e : SyntaxError := .mismatch ⟨.integer, 36, 1⟩ (.symbol .equal)
    ∃ tokens d, tokenize source = .ok tokens ∧ parseSource "A" source = .error d ∧
      d.cause = .syntactic e ∧ e.Misplaced ∧ tokens[11]? = some e.found ∧
      (∃ kinds, Sentence kinds ∧ (tokens.take 11).map Token.kind <+: kinds) ∧
      ∀ kinds, Sentence kinds → ¬ (tokens.take 12).map Token.kind <+: kinds := by
  intro source e
  have hplace : (tokenize source).toOption.map (·[11]?) = some (some e.found) := by decide +kernel
  have hcause : Except.casesOn (motive := fun _ => Option Cause) (parseSource "A" source)
      (fun d => some d.cause) (fun _ => none) = some (.syntactic e) := by decide +kernel
  cases htokens : tokenize source with
  | error e => simp [htokens, Except.toOption] at hplace
  | ok tokens =>
    simp only [htokens, Except.toOption, Option.map_some, Option.some.injEq] at hplace
    cases h : parseSource "A" source with
    | ok decl => simp [h] at hcause
    | error d =>
      simp only [h, Option.some.injEq] at hcause
      have hmisplaced := (parseSource_misplaced htokens h hcause trivial).2 11 hplace
      exact ⟨tokens, d, rfl, rfl, hcause, trivial, hplace, hmisplaced.1, hmisplaced.2.1⟩

end Jack
