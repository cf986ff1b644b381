import Jack.Proofs.Listing
import Jack.Proofs.Text.Lines
import Jack.Proofs.Token.Faults
import Jack.Proofs.Tree.Misplaced
import Jack.Proofs.Vm.LabelNumbers
import Jack.Proofs.Vm.Stops
import Jack.Proofs.Vm.Validity

/-!
Nothing goes wrong on the way from a source to its tokens, its tree, its code and its listings, nor
when an error is shown. Every span lies in the source between characters, every token that is looked
at is one of the tokens of the source, and no number gets too small or too large.
-/

namespace Jack

variable {unit source text : String} {span : Span} {token : Token} {tokens : List Token}
  {decl : ClassDecl}

/-! ### Spans -/

/-- The span has the text in the source, and 32 bits are enough for its ends. -/
def Span.Cuts (span : Span) (source text : String) : Prop :=
  span.fragment? source = some text ∧ span.stop < 2 ^ 32

theorem Span.cuts_of_fragment? (h : span.fragment? source = some text)
    (hsize : source.utf8ByteSize < 2 ^ 32) : span.Cuts source text := by
  obtain ⟨a, b, rfl, hindex, hlength⟩ := fragment?_eq_some_iff.1 h
  simp only [String.utf8ByteSize_append] at hsize
  refine ⟨h, ?_⟩
  rw [stop]
  omega

theorem LexFault.Rejects.ne_nil {fault : LexFault} {text rest : List Char}
    (h : fault.Rejects text rest) : text ≠ [] := by
  rintro rfl
  cases fault with
  | unknownCharacter c => simp [Rejects] at h
  | unterminatedString | unterminatedComment | malformedNumber => simp [Rejects] at h
  | integerOverflow => simp [Rejects, decimalValue] at h

/-- The tokens before a fault lie in the source, and so does the fault. -/
theorem Lexer.Fails.lies {lexer : Lexer} {e : LexError} (h : lexer.Fails tokens e)
    (hin : lexer.StandsIn source) : (∀ token ∈ tokens, token.LiesIn source) ∧
      (∃ text, e.span.fragment? source = some text) ∧ 0 < e.span.size := by
  induction h with
  | here h =>
    obtain ⟨gap, text, rest, hrest, -, hspan, hrejects⟩ := next_eq_error h
    have hstart : (⟨_, text ++ rest⟩ : Lexer).StandsIn source := hin.skip hrest rfl
    have hsize : 0 < byteLength text :=
      Nat.pos_of_ne_zero fun hzero => hrejects.ne_nil (eq_nil_of_byteLength_eq_zero hzero)
    rw [hspan]
    exact ⟨by simp, ⟨_, fragment?_of_standsIn hstart rfl⟩, hsize⟩
  | cons h hkind _ ih =>
    obtain ⟨hlies, hafter⟩ := next_liesIn hin h
    obtain ⟨htokens, herror⟩ := ih hafter
    exact ⟨List.forall_mem_cons.2 ⟨hlies, htokens⟩, herror⟩

theorem liesIn_of_tokenize (h : tokenize source = .ok tokens) (hmem : token ∈ tokens) :
    token.LiesIn source := by
  have hyields := tokenize_yields h
  clear h
  induction hyields with
  | last kind lies =>
    obtain rfl := List.mem_singleton.1 hmem
    exact lies
  | cons kind lies _ ih =>
    rcases List.mem_cons.1 hmem with rfl | hmem
    · exact lies
    · exact ih hmem

theorem tokens_of_parseSource (h : parseSource unit source = .ok decl) :
    ∃ tokens, tokenize source = .ok tokens ∧ decl.tokens = tokens.dropLast := by
  obtain ⟨tokens, htokens⟩ := tokenize_of_parseSource h
  exact ⟨tokens, htokens, ((parseSource_eq_ok_iff htokens).1 h).1.1⟩

theorem liesIn_of_mem_terminals (h : parseSource unit source = .ok decl) {x : Terminal}
    (hx : x ∈ decl.terminals) : x.token.LiesIn source := by
  obtain ⟨tokens, htokens, hdecl⟩ := tokens_of_parseSource h
  have hmem : x.token ∈ tokens.dropLast := hdecl ▸ List.mem_map_of_mem hx
  exact liesIn_of_tokenize htokens (List.mem_of_mem_dropLast hmem)

/-! ### The buffer of tokens -/

/-- What the cursor has ahead is the end of the tokens. -/
def Cursor.Over (tokens : List Token) (c : Cursor) : Prop := c.ahead ++ [c.last] <:+ tokens

theorem Cursor.Over.advance {c : Cursor} (h : c.Over tokens) : c.advance.Over tokens := by
  obtain ⟨source, ahead, last⟩ := c
  cases ahead with
  | nil => exact h
  | cons t ts =>
    by_cases hend : t.kind = .endOfSource
    · simpa only [Cursor.advance, hend, if_true] using h
    · simp only [Cursor.advance, hend, if_false]
      exact (List.suffix_cons t (ts ++ [last])).trans h

theorem Cursor.Over.iterate {c : Cursor} (h : c.Over tokens) (k : Nat) :
    (Nat.iterate Cursor.advance k c).Over tokens := by
  induction k generalizing c with
  | zero => exact h
  | succ k ih => exact ih h.advance

/-- A token ahead, or the last one in its place, is in the buffer. -/
theorem Cursor.Over.getElem?_peek {c : Cursor} (h : c.Over tokens) (n : Nat) :
    tokens[min (tokens.length - 1 - c.ahead.length + n) (tokens.length - 1)]? =
      some (c.peek n) := by
  obtain ⟨front, rfl⟩ := h
  have hindex : min ((front ++ (c.ahead ++ [c.last])).length - 1 - c.ahead.length + n)
      ((front ++ (c.ahead ++ [c.last])).length - 1) = front.length + min n c.ahead.length := by
    simp only [List.length_append, List.length_singleton]
    omega
  rw [hindex, List.getElem?_append_right (Nat.le_add_right ..), Nat.add_sub_cancel_left, peek]
  by_cases hn : n < c.ahead.length
  · rw [Nat.min_eq_left (Nat.le_of_lt hn), List.getElem?_append_left hn]
    simp [hn]
  · rw [Nat.min_eq_right (Nat.le_of_not_lt hn), List.getElem?_append_right (Nat.le_refl _)]
    simp [hn]

theorem Cursor.over_ofTokens (h : tokenize source = .ok tokens) :
    (Cursor.ofTokens source tokens).Over tokens := by
  obtain ⟨front, last, rfl, hlast, -⟩ := tokenize_lexemes h
  rw [Cursor.ofTokens_append hlast]
  exact List.suffix_refl _

/-! ### Numbers of tokens and labels -/

theorem Lexer.Reads.length_le {lexer : Lexer} (h : lexer.Reads tokens) :
    tokens.length ≤ lexer.rest.length + 1 := by
  induction h with
  | last h hkind => simp
  | cons h hkind _ ih =>
    have hshrinks := next_shrinks h hkind
    rw [List.length_cons]
    omega

theorem length_le_byteLength (cs : List Char) : cs.length ≤ byteLength cs := by
  induction cs with
  | nil => simp
  | cons c cs ih =>
    have hpos := c.utf8Size_pos
    rw [byteLength_cons, List.length_cons]
    omega

/-- A tree has no more terminals than its source has bytes. -/
theorem length_terminals_le (h : parseSource unit source = .ok decl) :
    decl.terminals.length ≤ source.utf8ByteSize := by
  obtain ⟨tokens, htokens, hdecl⟩ := tokens_of_parseSource h
  -- The end of the source, which the tree does not have, is the only token without a character.
  have hreads := (tokenize_eq_ok_iff_reads.1 htokens).length_le
  have hbytes := length_le_byteLength source.toList
  have hlength := congrArg List.length hdecl
  rw [byteLength_toList] at hbytes
  simp only [Lexer.ofSource] at hreads
  simp only [ClassDecl.tokens, List.length_map, List.length_dropLast] at hlength
  omega

/-! ### Errors that are shown -/

/-- The error has its place in the source, from a span and a line that lie there. Its column counts
from one, and there is something to underline. -/
structure Diagnostic.ShownIn (source : String) (d : Diagnostic) : Prop where
  span : ∃ text, d.cause.span.Cuts source text
  line : (d.cause.span.surroundingLine source).2.Cuts source
    (d.cause.span.surroundingLine source).1
  location : ∃ l, d.location = some l ∧ 1 ≤ l.column ∧ 1 ≤ l.width
  readable : ∀ t, d.cause ≠ .syntactic (.unreadable t)

theorem Diagnostic.located_shownIn (unit : String) (cause : Cause)
    (hsize : source.utf8ByteSize < 2 ^ 32) (h : cause.span.fragment? source = some text)
    (hreadable : ∀ t, cause ≠ .syntactic (.unreadable t)) :
    (located unit source cause).ShownIn source where
  span := ⟨text, Span.cuts_of_fragment? h hsize⟩
  line := Span.cuts_of_fragment? (cause.span.fragment?_surroundingLine source) hsize
  location := Location.exists_ofSpan? h
  readable := hreadable

theorem fragment?_of_tokenize_error {e : LexError} (h : tokenize source = .error e) :
    ∃ text, e.span.fragment? source = some text := by
  obtain ⟨tokens, hfails, -⟩ := exists_fails_of_tokenize h
  exact (hfails.lies (Lexer.standsIn_ofSource source)).2.1

/-- A syntax error is at a token of the source, which is out of place or nested too deep. -/
theorem parseTokens_error {e : SyntaxError} (htokens : tokenize source = .ok tokens)
    (h : parseTokens source tokens = .error e) :
    e.found ∈ tokens ∧ (e.Misplaced ∨ e = .nesting e.found) := by
  obtain ⟨c, halt, hc, rfl, hunit, rfl⟩ := exists_halt_of_parseTokens htokens h
  obtain ⟨⟨hfound, hkind⟩, word, rest, -, htook⟩ := Reader.unit_stops hc hunit
  obtain ⟨behind, hall⟩ := htook.exists_behind
  rw [← hfound] at hkind hall
  exact ⟨by simp [hall], hkind⟩

theorem parseSource_shownIn {d : Diagnostic} (hsize : source.utf8ByteSize < 2 ^ 32)
    (h : parseSource unit source = .error d) : d.ShownIn source := by
  rw [parseSource] at h
  split at h
  next e htokens =>
    obtain rfl := Except.error.inj h
    obtain ⟨text, htext⟩ := fragment?_of_tokenize_error htokens
    exact Diagnostic.located_shownIn unit (.lexical e) hsize htext (by simp)
  next tokens htokens =>
    split at h
    next e hparse =>
      obtain rfl := Except.error.inj h
      obtain ⟨hfound, hkind⟩ := parseTokens_error htokens hparse
      obtain ⟨lexeme, htext, -⟩ := liesIn_of_tokenize htokens hfound
      refine Diagnostic.located_shownIn unit (.syntactic e) hsize htext fun t ht => ?_
      obtain rfl : e = .unreadable t := by simpa using ht
      simp [SyntaxError.Misplaced] at hkind
    next => simp at h

theorem fragment?_of_compile_error {e : CompileError} (hparse : parseSource unit source = .ok decl)
    (h : (Generator.empty.compile decl).1 = .error e) :
    ∃ text, e.span.fragment? source = some text := by
  have hhead := (Generator.compile_eq_error_iff (noThis_of_parseSource hparse)).1 h
  obtain ⟨x, hx, hspan⟩ := ClassDecl.exists_terminal_of_violation (List.mem_of_mem_head? hhead)
  obtain ⟨lexeme, htext, -⟩ := liesIn_of_mem_terminals hparse hx
  exact ⟨_, hspan ▸ htext⟩

theorem compileSource_shownIn {d : Diagnostic} (hsize : source.utf8ByteSize < 2 ^ 32)
    (h : compileSource unit source = .error d) : d.ShownIn source := by
  rcases bind_eq_error_iff.1 h with h | ⟨decl, hparse, h⟩
  · exact parseSource_shownIn hsize h
  · split at h
    next => simp at h
    next e g hcompile =>
      obtain rfl := Except.error.inj h
      obtain ⟨text, htext⟩ := fragment?_of_compile_error hparse (congrArg Prod.fst hcompile)
      exact Diagnostic.located_shownIn unit (.semantic e) hsize htext (by simp)

/-! ### Whole sources -/

/-- No step for the source can fail, whatever it is. -/
structure Safe (unit source : String) : Prop where
  /-- The spans of tokens lie in the source. -/
  tokens : ∀ token, .ok token ∈ lexemes source → ∃ text, token.span.Cuts source text
  /-- The spans of lexical errors do so too, and their ends are behind their starts. -/
  faults : ∀ e, .error e ∈ lexemes source → (∃ text, e.span.Cuts source text) ∧ 0 < e.span.size
  /-- Wherever the cursor gets, and however far it looks ahead, there is a token. -/
  buffer : ∀ tokens, tokenize source = .ok tokens → ∀ k n : Nat,
    let c := Nat.iterate Cursor.advance k (.ofTokens source tokens)
    tokens[min (tokens.length - 1 - c.ahead.length + n) (tokens.length - 1)]? = some (c.peek n)
  tokenListing : ∀ tokens, tokenize source = .ok tokens →
    ∃ text, listTokens? source tokens = some text
  /-- The tree can be listed: no element is closed that is not open, and none stays open. -/
  treeListing : ∀ decl, parseSource unit source = .ok decl →
    (∃ text, listTree? source decl = some text ∧
      Printer.classDecl decl ⟨source, "", 0⟩ = some ((), ⟨source, text, 0⟩)) ∧
      openAfter? [] (Outline.classDecl decl).lines = some []
  /-- The counter of labels does not overflow, with or without an error. -/
  labels : ∀ decl, parseSource unit source = .ok decl →
    (Generator.empty.compile decl).2.output.labels < 2 ^ 32
  parseErrors : ∀ d, parseSource unit source = .error d → d.ShownIn source
  compileErrors : ∀ d, compileSource unit source = .error d → d.ShownIn source

theorem cuts_of_mem_lexemes (hsize : source.utf8ByteSize < 2 ^ 32) :
    (∀ token, .ok token ∈ lexemes source → ∃ text, token.span.Cuts source text) ∧
      ∀ e, .error e ∈ lexemes source →
        (∃ text, e.span.Cuts source text) ∧ 0 < e.span.size := by
  have hin := Lexer.standsIn_ofSource source
  cases htokens : tokenize source with
  | ok tokens =>
    have hlexemes : lexemes source = tokens.map .ok := mapM_id_eq_ok htokens
    rw [hlexemes]
    constructor
    · intro token hmem
      obtain ⟨lexeme, htext, -⟩ := liesIn_of_tokenize htokens (by simpa using hmem)
      exact ⟨_, Span.cuts_of_fragment? htext hsize⟩
    · simp
  | error e =>
    obtain ⟨tokens, hfails, hlexemes⟩ := exists_fails_of_tokenize htokens
    obtain ⟨hlies, ⟨text, htext⟩, hpos⟩ := hfails.lies hin
    rw [hlexemes]
    constructor
    · intro token hmem
      obtain ⟨lexeme, htext, -⟩ := hlies token (by simpa using hmem)
      exact ⟨_, Span.cuts_of_fragment? htext hsize⟩
    · intro e' hmem
      obtain rfl : e' = e := by simpa using hmem
      exact ⟨⟨text, Span.cuts_of_fragment? htext hsize⟩, hpos⟩

/-- Every source whose bytes 32 bits can count is safe, under any name. -/
theorem safe_of_size_lt (unit : String) (h : source.utf8ByteSize < 2 ^ 32) : Safe unit source where
  tokens := (cuts_of_mem_lexemes h).1
  faults := (cuts_of_mem_lexemes h).2
  buffer := fun tokens htokens k n =>
    ((Cursor.over_ofTokens htokens).iterate k).getElem?_peek n
  tokenListing := fun tokens htokens => by
    apply exists_listTokens?
    intro t ht
    obtain ⟨lexeme, htext, -⟩ := liesIn_of_tokenize htokens ht
    exact Token.exists_text? htext
  treeListing := fun decl hdecl => by
    obtain ⟨text, htext⟩ : ∃ text, listTree? source decl = some text := by
      apply exists_listTree?
      intro t ht
      obtain ⟨x, hx, rfl⟩ := List.mem_map.1 ht
      obtain ⟨lexeme, htext, -⟩ := liesIn_of_mem_terminals hdecl hx
      exact Token.exists_text? htext
    have hwriter := printer_classDecl_eq source decl
    rw [htext] at hwriter
    exact ⟨⟨text, htext, hwriter⟩, Outline.openAfter?_lines _⟩
  labels := fun decl hdecl => by
    have hlabels := Generator.compile_labels_le decl
    have hlength := length_terminals_le hdecl
    omega
  parseErrors := fun d hd => parseSource_shownIn h hd
  compileErrors := fun d hd => compileSource_shownIn h hd

theorem safe_unknownCharacter :
    let source := "class A \x7b /* ü */ é"
    let e : LexError := ⟨.unknownCharacter 'é', 19, 2⟩
    source.utf8ByteSize < 2 ^ 32 ∧ ∃ d, parseSource "A" source = .error d ∧
      d.cause = .lexical e ∧ d.ShownIn source := by
  intro source e
  have hsize : source.utf8ByteSize < 2 ^ 32 := by decide +kernel
  have hcause : Except.casesOn (motive := fun _ => Option Cause) (parseSource "A" source)
      (fun d => some d.cause) (fun _ => none) = some (.lexical e) := by decide +kernel
  cases h : parseSource "A" source with
  | ok decl => simp [h] at hcause
  | error d =>
    simp only [h, Option.some.injEq] at hcause
    exact ⟨hsize, d, rfl, hcause, (safe_of_size_lt "A" hsize).parseErrors d h⟩

end Jack
