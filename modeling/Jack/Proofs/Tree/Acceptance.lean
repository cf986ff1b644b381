import Jack.Compile
import Jack.Proofs.Tree.Completeness
import Jack.Proofs.Tree.Parsers
import Jack.Proofs.Tree.Shape
import Jack.Proofs.Tree.Soundness

/-!
A source is accepted exactly when its tokens derive from the grammar within the nesting limit, and
the tree is the one that they derive.
-/

namespace Jack

/-! ### Values of tokens -/

theorem wordValue?_ofList {digits : List Char} (hne : digits ≠ [])
    (hdigits : ∀ c ∈ digits, isDigit c = true) (hle : decimalValue digits ≤ maxInteger) :
    wordValue? (String.ofList digits) = some (decimalValue digits) := by
  have hlt : decimalValue digits < 65536 := Nat.lt_of_le_of_lt hle (by decide)
  have hall := List.all_eq_true.2 hdigits
  simp only [wordValue?, String.toList_ofList]
  split
  · exact absurd (hdigits '+' (by simp)) (by decide)
  · simp [hne, hlt, hall]

theorem unquote_ofList (body : List Char) :
    unquote (String.ofList ('"' :: body ++ ['"'])) = String.ofList body := by
  simp [unquote]

/-- For a token of a source, the value that a reader makes of it is the one that its text has. -/
theorem Terminal.readAs_iff_denotes {source : String} {x : Terminal} (h : x.token.LiesIn source) :
    x.ReadAs source ↔ x.Denotes source := by
  obtain ⟨lexeme, hfragment, hspells⟩ := h
  cases x with
  | keyword k span => exact Iff.rfl
  | symbol s span => exact Iff.rfl
  | identifier name span => exact Iff.rfl
  | integer value span =>
    have hvalue := wordValue?_ofList hspells.1 hspells.2.1 hspells.2.2
    simp only [token] at hfragment
    simp only [ReadAs, Denotes, Token.text?, hfragment, Option.some.injEq, exists_eq_left',
      hvalue]
    constructor
    · exact fun h => ⟨lexeme, rfl, h⟩
    · rintro ⟨digits, hdigits, h⟩
      have hsame : lexeme = digits := by simpa using congrArg String.toList hdigits
      exact hsame ▸ h
  | string value span =>
    obtain ⟨body, rfl, -⟩ := hspells
    simp only [token] at hfragment
    have hquoted : String.ofList ('"' :: body ++ ['"']) = "\"" ++ value ++ "\"" ↔
        String.ofList body = value := by
      rw [String.ext_iff, String.ext_iff]
      simp
    simp only [ReadAs, Denotes, Token.text?, hfragment, Option.map_some, unquote_ofList,
      Option.some.injEq, hquoted]

/-- A token of a source is the token of a terminal with the value that its text has. -/
theorem Token.LiesIn.exists_terminal {source : String} {token : Token} (h : token.LiesIn source)
    (hkind : token.kind ≠ .endOfSource) : ∃ x : Terminal, x.token = token ∧ x.Denotes source := by
  obtain ⟨kind, span⟩ := token
  obtain ⟨lexeme, hfragment, hspells⟩ := h
  cases kind with
  | keyword k => exact ⟨.keyword k span, rfl, trivial⟩
  | symbol s => exact ⟨.symbol s span, rfl, trivial⟩
  | integer => exact ⟨.integer (decimalValue lexeme) span, rfl, lexeme, hfragment, rfl⟩
  | string =>
    obtain ⟨body, rfl, -⟩ := hspells
    refine ⟨.string (String.ofList body) span, rfl, ?_⟩
    simp only [Terminal.Denotes, hfragment, Option.some.injEq]
    rw [String.ext_iff]
    simp
  | identifier => exact ⟨.identifier (String.ofList lexeme) span, rfl, hfragment⟩
  | endOfSource => exact absurd rfl hkind

theorem exists_terminals {source : String} {tokens : List Token}
    (h : ∀ token ∈ tokens, token.kind ≠ .endOfSource ∧ token.LiesIn source) :
    ∃ xs : List Terminal, xs.map Terminal.token = tokens ∧ ∀ x ∈ xs, x.Denotes source := by
  induction tokens with
  | nil => exact ⟨[], rfl, by simp⟩
  | cons token tokens ih =>
    rw [List.forall_mem_cons] at h
    obtain ⟨x, rfl, hx⟩ := h.1.2.exists_terminal h.1.1
    obtain ⟨xs, rfl, hxs⟩ := ih h.2
    exact ⟨x :: xs, rfl, List.forall_mem_cons.2 ⟨hx, hxs⟩⟩

/-! ### Whole sources -/

/-- The class derives the tokens: they are its leaves, from left to right, with the values that
their texts have. -/
def ClassDecl.Derives (source : String) (decl : ClassDecl) (tokens : List Token) : Prop :=
  decl.tokens = tokens ∧ ∀ x ∈ decl.terminals, x.Denotes source

theorem Cursor.ofTokens_append {source : String} {front : List Token} {last : Token}
    (h : last.kind = .endOfSource) :
    Cursor.ofTokens source (front ++ [last]) = ⟨source, front, last⟩ := by
  obtain ⟨kind, span⟩ := last
  obtain rfl : kind = .endOfSource := h
  simp [Cursor.ofTokens]

section

variable {source : String} {front : List Token} {last : Token} {decl : ClassDecl} {levels : Nat}
  (hlast : last.kind = .endOfSource)
  (hfront : ∀ token ∈ front, token.kind ≠ .endOfSource ∧ token.LiesIn source)

include hlast hfront in
theorem derives_of_unit {c : Cursor}
    (h : Reader.unit levels ⟨source, front, last⟩ = .ok (decl, c)) :
    decl.Derives source front ∧ decl.depth ≤ levels := by
  have hunit : Reader.Gives (Reader.unit levels) ⟨source, front, last⟩ fun t _ =>
      ∃ c₁ : Cursor, Took ⟨source, front, last⟩ t.terminals c₁ ∧ c₁.current.kind = .endOfSource ∧
        t.depth ≤ levels := by
    refine (Reader.classDecl_takes levels ⟨source, front, last⟩ hlast).bind fun t c₁ h₁ => ?_
    refine Reader.Gives.expect.bind fun span c₂ h₂ => .pure ⟨c₁, h₁.1, ?_, h₁.2⟩
    rw [h₂.1]
  obtain ⟨c₁, htook, hend, hdepth⟩ := hunit decl c h
  have heq := htook.eq_before
  obtain ⟨source₁, ahead, last₁⟩ := c₁
  simp only [Cursor.before, Cursor.mk.injEq] at heq
  obtain ⟨rfl, rfl, rfl⟩ := heq
  cases ahead with
  | cons token rest => exact absurd hend (hfront token (by simp)).1
  | nil =>
    rw [List.append_nil] at hfront
    refine ⟨⟨by simp [ClassDecl.tokens], fun x hx => ?_⟩, hdepth⟩
    exact (Terminal.readAs_iff_denotes (hfront _ (List.mem_map_of_mem hx)).2).1 (htook.readAs x hx)

include hlast hfront in
theorem unit_of_derives (h : decl.Derives source front) (hdepth : decl.depth ≤ levels) :
    Reader.unit levels ⟨source, front, last⟩ = .ok (decl, ⟨source, [], last⟩) := by
  obtain ⟨rfl, hdenotes⟩ := h
  have hread : ∀ x ∈ decl.terminals, x.ReadAs source := fun x hx =>
    (Terminal.readAs_iff_denotes (hfront _ (List.mem_map_of_mem hx)).2).2 (hdenotes x hx)
  have hcovers := Reader.classDecl_covers levels ⟨source, [], last⟩ decl hdepth hread trivial
  have hcursor : Cursor.before ⟨source, [], last⟩ decl.terminals = ⟨source, decl.tokens, last⟩ := by
    simp [Cursor.before, ClassDecl.tokens]
  rw [hcursor] at hcovers
  refine Reader.bind_of_ok hcovers ?_
  have hend : Reader.expect .endOfSource ⟨source, [], last⟩ =
      .ok (last.span, ⟨source, [], last⟩) := by
    simp [Reader.expect, Cursor.accept?, Cursor.current, Cursor.peek, Cursor.advance, hlast]
  exact Reader.bind_of_ok hend rfl

include hlast hfront in
theorem parseTokens_eq_ok_iff :
    parseTokens source (front ++ [last]) = .ok decl ↔
      decl.Derives source front ∧ decl.depth ≤ maxDepth := by
  rw [parseTokens_eq, Cursor.ofTokens_append hlast]
  constructor
  · intro h
    split at h
    · rename_i t c hunit
      obtain rfl : t = decl := by simpa using h
      exact derives_of_unit hlast hfront hunit
    · simp at h
  · rintro ⟨hderives, hdepth⟩
    rw [unit_of_derives hlast hfront hderives hdepth]

include hlast hfront in
/-- No two trees derive the same tokens, at whatever depth. -/
theorem ClassDecl.Derives.unique {decl' : ClassDecl} (h : decl.Derives source front)
    (h' : decl'.Derives source front) : decl' = decl := by
  have hunit := unit_of_derives hlast hfront h (Nat.le_max_left decl.depth decl'.depth)
  have hunit' := unit_of_derives hlast hfront h' (Nat.le_max_right decl.depth decl'.depth)
  rw [hunit] at hunit'
  simp only [Except.ok.injEq, Prod.mk.injEq, and_true] at hunit'
  exact hunit'.symm

include hfront in
/-- Tokens of the kinds that some tree derives are derived by a tree as deep as that one. -/
theorem exists_derives {shape : ClassDecl}
    (hkinds : shape.tokens.map Token.kind = front.map Token.kind) :
    ∃ t : ClassDecl, t.Derives source front ∧ t.depth = shape.depth := by
  obtain ⟨xs, rfl, hdenotes⟩ := exists_terminals hfront
  have hsame : SameKinds xs shape.terminals := by
    simpa [SameKinds, ClassDecl.tokens, List.map_map, Function.comp_def] using hkinds.symm
  obtain ⟨t, rfl, hdepth⟩ := shape.reshapes xs hsame
  exact ⟨t, ⟨rfl, hdenotes⟩, hdepth⟩

end

theorem parseSource_of_tokenize {unit source : String} {tokens : List Token} {decl : ClassDecl}
    (h : tokenize source = .ok tokens) :
    parseSource unit source = .ok decl ↔ parseTokens source tokens = .ok decl := by
  simp only [parseSource, h]
  cases parseTokens source tokens <;> simp

theorem parseSource_eq_ok_iff {unit source : String} {tokens : List Token} {decl : ClassDecl}
    (htokens : tokenize source = .ok tokens) :
    parseSource unit source = .ok decl ↔
      decl.Derives source tokens.dropLast ∧ decl.depth ≤ maxDepth := by
  obtain ⟨front, last, rfl, hlast, hfront⟩ := tokenize_lexemes htokens
  rw [List.dropLast_concat, parseSource_of_tokenize htokens, parseTokens_eq_ok_iff hlast hfront]

theorem exists_ok_of_toOption_map {ε α β : Type} {x : Except ε α} {f : α → β} {b : β}
    (h : x.toOption.map f = some b) : ∃ a, x = .ok a ∧ f a = b := by
  cases x with
  | error e => simp [Except.toOption] at h
  | ok a => exact ⟨a, rfl, by simpa [Except.toOption] using h⟩

/-- A tree with the tokens of a source for its leaves is what the source is read as. -/
theorem parseSource_of_tokens {unit source : String} {decl : ClassDecl}
    (htokens : (tokenize source).toOption.map (·.dropLast) = some decl.tokens)
    (hdenotes : ∀ x ∈ decl.terminals, x.Denotes source) (hdepth : decl.depth ≤ maxDepth) :
    parseSource unit source = .ok decl := by
  obtain ⟨tokens, h, hfront⟩ := exists_ok_of_toOption_map htokens
  exact (parseSource_eq_ok_iff h).2 ⟨⟨hfront.symm, hdenotes⟩, hdepth⟩

theorem tokenize_of_parseSource {unit source : String} {decl : ClassDecl}
    (h : parseSource unit source = .ok decl) : ∃ tokens, tokenize source = .ok tokens := by
  cases htokens : tokenize source with
  | error e => simp [parseSource, htokens] at h
  | ok tokens => exact ⟨tokens, rfl⟩

/-- The names in the tree of a source are identifiers. -/
theorem spells_of_mem_terminals {unit source name : String} {decl : ClassDecl} {span : Span}
    (h : parseSource unit source = .ok decl)
    (hmem : .identifier name span ∈ decl.terminals) : Kind.identifier.Spells name.toList := by
  obtain ⟨tokens, htokens⟩ := tokenize_of_parseSource h
  obtain ⟨⟨hfront, hdenotes⟩, -⟩ := (parseSource_eq_ok_iff htokens).1 h
  obtain ⟨front, last, rfl, -, hlies⟩ := tokenize_lexemes htokens
  obtain rfl : decl.tokens = front := by simpa using hfront
  obtain ⟨lexeme, hfragment, hspells⟩ := (hlies _ (List.mem_map_of_mem hmem)).2
  have hname : span.fragment? source = some name := hdenotes _ hmem
  obtain rfl : name = String.ofList lexeme := by simpa [hname, Terminal.token] using hfragment
  rwa [String.toList_ofList]

/-- No name in the tree of a source is a keyword. -/
theorem ofText?_eq_none_of_mem_terminals {unit source name : String} {decl : ClassDecl}
    {span : Span} (h : parseSource unit source = .ok decl)
    (hmem : .identifier name span ∈ decl.terminals) : Keyword.ofText? name = none := by
  have hspells := spells_of_mem_terminals h hmem
  rw [← String.ofList_toList (s := name)]
  exact hspells.2.2

/-- A source that can be tokenized is read as a tree exactly when the tree derives the tokens in
front of the end and is nested no deeper than the limit. Tokens of the kinds of any tree within the
limit are accepted, and no second tree derives them. -/
theorem parseSource_eq_ok_iff_derives {unit source : String} {tokens : List Token}
    (htokens : tokenize source = .ok tokens) :
    (∀ t : ClassDecl, parseSource unit source = .ok t ↔
      t.Derives source tokens.dropLast ∧ t.depth ≤ maxDepth) ∧
    ∀ shape : ClassDecl, shape.tokens.map Token.kind = tokens.dropLast.map Token.kind →
      shape.depth ≤ maxDepth →
      ∃ t, parseSource unit source = .ok t ∧
        ∀ t' : ClassDecl, t'.Derives source tokens.dropLast → t' = t := by
  have hiff (t : ClassDecl) : parseSource unit source = .ok t ↔ _ := parseSource_eq_ok_iff htokens
  obtain ⟨front, last, rfl, hlast, hfront⟩ := tokenize_lexemes htokens
  rw [List.dropLast_concat] at hiff ⊢
  refine ⟨hiff, fun shape hkinds hdepth => ?_⟩
  obtain ⟨t, hderives, hshape⟩ := exists_derives hfront hkinds
  refine ⟨t, (hiff t).2 ⟨hderives, hshape ▸ hdepth⟩, fun t' ht' => ?_⟩
  exact hderives.unique hlast hfront ht'

/-- The tree of a class with the one statement `return -x;`, at no particular place. -/
def returnNegation : ClassDecl :=
  let s : Span := ⟨0, 0⟩
  let negation : Expr := .mk (.unary .neg s (.var ⟨"", s⟩)) .nil
  let body : Body := ⟨s, [], .cons (.finish s (some negation) s) .nil, s⟩
  ⟨s, ⟨"", s⟩, s, [], [⟨.function, s, .value (.primitive .int s), ⟨"", s⟩, s, none, s, body⟩], s⟩

theorem parseSource_returnNegation :
    let source := "class A \x7b function int f() \x7b return -x; \x7d \x7d"
    ∃ tokens, tokenize source = .ok tokens ∧
      returnNegation.tokens.map Token.kind = tokens.dropLast.map Token.kind ∧
      returnNegation.depth ≤ maxDepth ∧
      ∃ t, parseSource "A" source = .ok t ∧
        ∀ t' : ClassDecl, t'.Derives source tokens.dropLast → t' = t := by
  intro source
  have hkinds : (tokenize source).toOption.map (·.dropLast.map Token.kind) =
      some (returnNegation.tokens.map Token.kind) := by decide +kernel
  cases htokens : tokenize source with
  | error e => simp [htokens, Except.toOption] at hkinds
  | ok tokens =>
    simp only [htokens, Except.toOption, Option.map_some, Option.some.injEq] at hkinds
    exact ⟨tokens, rfl, hkinds.symm, by decide,
      (parseSource_eq_ok_iff_derives htokens).2 returnNegation hkinds.symm (by decide)⟩

end Jack
