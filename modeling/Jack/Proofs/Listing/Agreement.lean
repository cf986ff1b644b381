import Jack.Proofs.Listing
import Jack.Proofs.Safety

/-!
The two listings of a source agree. Each mark has a line of its own, and the lines of the tree that
are not tags of its elements are the lines of the tokens, further to the right.
-/

namespace Jack

/-! ### Tags of elements -/

/-- The parts of the grammar that have an element of their own. -/
def elementTags : List String :=
  ["class", "classVarDec", "subroutineDec", "parameterList", "subroutineBody", "varDec",
    "statements", "letStatement", "ifStatement", "whileStatement", "doStatement",
    "returnStatement", "expression", "term", "expressionList"]

/-- The lines that open and close elements, without indentation. -/
def elementLines : List (List Char) :=
  elementTags.flatMap fun tag => [("<" ++ tag ++ ">").toList, ("</" ++ tag ++ ">").toList]

/-- A mark that is a token, or the tag of an element of the grammar. -/
def Mark.Tagged : Mark → Prop
  | opening tag | closing tag => tag ∈ elementTags
  | token _ => True

namespace Outline

mutual

/-- All elements of an outline are parts of the grammar. -/
def Tagged : Outline → Prop
  | .token _ => True
  | .element tag children => tag ∈ elementTags ∧ AllTagged children

def AllTagged : List Outline → Prop
  | [] => True
  | child :: children => child.Tagged ∧ AllTagged children

end

theorem allTagged_iff (os : List Outline) : AllTagged os ↔ ∀ o ∈ os, o.Tagged := by
  induction os with
  | nil => simp [AllTagged]
  | cons child children ih => simp [AllTagged, ih]

mutual

theorem Tagged.linesAt (depth : Nat) : ∀ o : Outline, o.Tagged →
    ∀ line ∈ linesAt depth o, line.mark.Tagged
  | .token t, _ => by simp [Outline.linesAt, Mark.Tagged]
  | .element tag children, h => by
    have hchildren := AllTagged.childLinesAt (depth + 1) children h.2
    intro line hline
    simp only [Outline.linesAt, List.mem_cons, List.mem_append, List.mem_nil_iff, or_false] at hline
    rcases hline with rfl | hline | rfl
    · exact h.1
    · exact hchildren line hline
    · exact h.1

theorem AllTagged.childLinesAt (depth : Nat) : ∀ os : List Outline, AllTagged os →
    ∀ line ∈ childLinesAt depth os, line.mark.Tagged
  | [], _ => by simp [Outline.childLinesAt]
  | child :: children, h => by
    intro line hline
    rcases List.mem_append.1 hline with hline | hline
    · exact Tagged.linesAt depth child h.1 line hline
    · exact AllTagged.childLinesAt depth children h.2 line hline

end

variable (tag : String) (children : List Outline)

@[simp] theorem tagged_element :
    (element tag children).Tagged ↔ tag ∈ elementTags ∧ ∀ o ∈ children, o.Tagged := by
  rw [Tagged, allTagged_iff]

@[simp] theorem tagged_token (t : Token) : (token t).Tagged := trivial

@[simp] theorem tagged_keyword (k : Keyword) (span : Span) : (keyword k span).Tagged := trivial

@[simp] theorem tagged_symbol (s : Symbol) (span : Span) : (symbol s span).Tagged := trivial

@[simp] theorem tagged_ident (name : Ident) : (ident name).Tagged := trivial

mutual

theorem expr_tagged : ∀ e : Expr, (expr e).Tagged
  | .mk head tail => by
    simpa [expr, elementTags] using ⟨term_tagged head, opTerms_tagged tail⟩

theorem opTerms_tagged : ∀ xs : OpTerms, ∀ o ∈ opTerms xs, o.Tagged
  | .nil => by simp [opTerms]
  | .cons op span t rest => by
    simpa [opTerms] using ⟨term_tagged t, opTerms_tagged rest⟩

theorem term_tagged : ∀ t : Term, (term t).Tagged
  | .integer _ _ | .string _ _ | .named _ _ | .var _ => by simp [term, elementTags]
  | .paren left e right => by simpa [term, elementTags] using expr_tagged e
  | .unary op span t => by simpa [term, elementTags] using term_tagged t
  | .element name ix => by simpa [term, elementTags] using index_tagged ix
  | .call c => by simpa [term, elementTags] using call_tagged c

theorem index_tagged : ∀ ix : Index, ∀ o ∈ index ix, o.Tagged
  | .mk left e right => by simpa [index] using expr_tagged e

theorem call_tagged : ∀ c : Call, ∀ o ∈ call c, o.Tagged
  | .mk none name left as right => by simpa [call, elementTags] using args_tagged as
  | .mk (some (object, dot)) name left as right => by
    simpa [call, elementTags] using args_tagged as

theorem args_tagged : ∀ as : Args, ∀ o ∈ args as, o.Tagged
  | .none => by simp [args]
  | .some head tail => by simpa [args] using ⟨expr_tagged head, moreArgs_tagged tail⟩

theorem moreArgs_tagged : ∀ as : MoreArgs, ∀ o ∈ moreArgs as, o.Tagged
  | .nil => by simp [moreArgs]
  | .cons comma e rest => by simpa [moreArgs] using ⟨expr_tagged e, moreArgs_tagged rest⟩

end

mutual

theorem stmt_tagged : ∀ s : Stmt, (stmt s).Tagged
  | .assign kw target none equal value semicolon => by
    simpa [stmt, elementTags] using expr_tagged value
  | .assign kw target (some ix) equal value semicolon => by
    simpa [stmt, elementTags, or_imp, forall_and] using ⟨index_tagged ix, expr_tagged value⟩
  | .branch kw left condition right yes no => by
    simpa [stmt, elementTags, or_imp, forall_and] using
      ⟨expr_tagged condition, block_tagged yes, otherwise_tagged no⟩
  | .loop kw left condition right body => by
    simpa [stmt, elementTags] using ⟨expr_tagged condition, block_tagged body⟩
  | .perform kw c semicolon => by
    simpa [stmt, elementTags, or_imp, forall_and] using call_tagged c
  | .finish kw none semicolon => by simp [stmt, elementTags]
  | .finish kw (some value) semicolon => by simpa [stmt, elementTags] using expr_tagged value

theorem otherwise_tagged : ∀ no : Otherwise, ∀ o ∈ otherwise no, o.Tagged
  | .none => by simp [otherwise]
  | .some kw b => by simpa [otherwise] using block_tagged b

theorem block_tagged : ∀ b : Block, ∀ o ∈ block b, o.Tagged
  | .mk left body right => by simpa [block, elementTags] using stmts_tagged body

theorem stmts_tagged : ∀ body : Stmts, ∀ o ∈ stmts body, o.Tagged
  | .nil => by simp [stmts]
  | .cons s rest => by simpa [stmts] using ⟨stmt_tagged s, stmts_tagged rest⟩

end

theorem separated_tagged {α : Type} {item : α → List Outline}
    (h : ∀ x, ∀ o ∈ item x, o.Tagged) (xs : Separated α) : ∀ o ∈ separated item xs, o.Tagged := by
  intro o ho
  rcases List.mem_append.1 ho with ho | ho
  · exact h xs.head o ho
  · obtain ⟨⟨comma, x⟩, -, ho⟩ := List.mem_flatMap.1 ho
    rcases List.mem_cons.1 ho with rfl | ho
    · exact tagged_symbol .comma comma
    · exact h x o ho

theorem names_tagged (xs : Separated Ident) : ∀ o ∈ names xs, o.Tagged :=
  separated_tagged (fun name => by simp) xs

@[simp] theorem varType_tagged (type : VarType) : (varType type).Tagged := by
  cases type <;> simp [varType]

@[simp] theorem returnType_tagged (type : ReturnType) : (returnType type).Tagged := by
  cases type <;> simp [returnType]

theorem classVar_tagged (dec : ClassVarDec) : (classVar dec).Tagged := by
  simpa [classVar, elementTags, or_imp, forall_and] using names_tagged dec.names

theorem var_tagged (dec : VarDec) : (var dec).Tagged := by
  simpa [var, elementTags, or_imp, forall_and] using names_tagged dec.names

theorem params_tagged (ps : Option (Separated Param)) : ∀ o ∈ params ps, o.Tagged := by
  have hparam (p : Param) : ∀ o ∈ [varType p.type, ident p.name], o.Tagged := by simp
  cases ps with
  | none => simp [params]
  | some ps => exact separated_tagged hparam ps

theorem body_tagged (b : Body) : (body b).Tagged := by
  simpa [body, elementTags, or_imp, forall_and] using
    ⟨fun dec _ => var_tagged dec, stmts_tagged b.statements⟩

theorem subroutine_tagged (sub : Subroutine) : (subroutine sub).Tagged := by
  simpa [subroutine, elementTags] using ⟨params_tagged sub.params, body_tagged sub.body⟩

theorem classDecl_tagged (decl : ClassDecl) : (classDecl decl).Tagged := by
  simpa [classDecl, elementTags, or_imp, forall_and] using
    ⟨fun dec _ => classVar_tagged dec, fun sub _ => subroutine_tagged sub⟩

end Outline

/-! ### Marks on lines -/

theorem toList_escapeText (text : String) :
    (escapeText text).toList = text.toList.flatMap fun c => (escapeMarkup c).toList := by
  have hfoldl (out : String) (cs : List Char) :
      (cs.foldl (fun out c => out ++ escapeMarkup c) out).toList =
        out.toList ++ cs.flatMap fun c => (escapeMarkup c).toList := by
    induction cs generalizing out with
    | nil => simp
    | cons c cs ih => rw [List.foldl_cons, ih, String.toList_append, List.append_assoc]; rfl
  exact hfoldl "" text.toList

theorem feed_notMem_escapeText {text : String} (h : '\n' ∉ text.toList) :
    '\n' ∉ (escapeText text).toList := by
  intro hmem
  rw [toList_escapeText] at hmem
  obtain ⟨c, hc, hmem⟩ := List.mem_flatMap.1 hmem
  have hfeed : '\n' ∈ (escapeMarkup c).toList → c = '\n' := by
    unfold escapeMarkup
    split <;> simp [eq_comm]
  exact h (hfeed hmem ▸ hc)

/-- The text of a token of a source stays on one line. -/
theorem Token.LiesIn.text? {source : String} {t : Token} (h : t.LiesIn source) :
    ∃ text, t.text? source = some text ∧ '\n' ∉ text.toList := by
  obtain ⟨kind, span⟩ := t
  obtain ⟨lexeme, hfragment, hspells⟩ := h
  have hplain (hlexeme : '\n' ∉ lexeme) :
      ∃ text, span.fragment? source = some text ∧ '\n' ∉ text.toList :=
    ⟨_, hfragment, by rwa [String.toList_ofList]⟩
  cases kind with
  | keyword k =>
    refine hplain fun hmem => ?_
    have hword : lexeme = k.text.toList := by rw [← hspells, String.toList_ofList]
    rw [hword] at hmem
    revert hmem
    cases k <;> decide
  | symbol s =>
    refine hplain fun hmem => ?_
    have hlexeme : lexeme = [s.char] := hspells
    rw [hlexeme, List.mem_singleton] at hmem
    revert hmem
    cases s <;> decide
  | integer => exact hplain fun hmem => absurd (hspells.2.1 _ hmem) (by decide)
  | identifier => exact hplain fun hmem => absurd (hspells.2.1 _ hmem) (by decide)
  | endOfSource => exact hplain (by rw [show lexeme = [] from hspells]; simp)
  | string =>
    obtain ⟨body, rfl, hbody⟩ := hspells
    refine ⟨String.ofList body, ?_, ?_⟩
    · rw [Token.text?, hfragment, Option.map_some, unquote_ofList]
    · rw [String.toList_ofList]
      exact fun hmem => absurd (hbody _ hmem) (by decide)

namespace Mark

/-- What a mark shows, nothing if it has no text. -/
def shown (source : String) (mark : Mark) : List Char := ((mark.text? source).getD "").toList

/-- A mark with a text that begins with its tag and stays on one line. -/
def OnLine (source : String) (mark : Mark) : Prop :=
  ∃ text cs, mark.text? source = some text ∧ text.toList = '<' :: cs ∧ '\n' ∉ cs

variable {source : String} {mark : Mark}

theorem onLine_token {t : Token} (h : t.LiesIn source) : (token t).OnLine source := by
  obtain ⟨text, htext, hfeed⟩ := h.text?
  have htag : '\n' ∉ t.kind.tag.toList := by cases t.kind <;> simp [Kind.tag]
  refine ⟨_, t.kind.tag.toList ++ "> ".toList ++ (escapeText text).toList
    ++ " </".toList ++ t.kind.tag.toList ++ ">".toList, by rw [Mark.text?, htext]; rfl, ?_, ?_⟩
  · simp
  · simp [htag, feed_notMem_escapeText hfeed]

theorem onLine_tag {tag : String} (h : '\n' ∉ tag.toList) :
    (opening tag).OnLine source ∧ (closing tag).OnLine source :=
  ⟨⟨_, tag.toList ++ ">".toList, rfl, by simp, by simp [h]⟩,
    ⟨_, "/".toList ++ tag.toList ++ ">".toList, rfl, by simp, by simp [h]⟩⟩

theorem Tagged.onLine (h : mark.Tagged) (hlies : ∀ t ∈ mark.token?, t.LiesIn source) :
    mark.OnLine source := by
  have htags : ∀ tag ∈ elementTags, '\n' ∉ tag.toList := by decide
  cases mark with
  | opening tag => exact (onLine_tag (htags tag h)).1
  | closing tag => exact (onLine_tag (htags tag h)).2
  | token t => exact onLine_token (hlies t rfl)

/-- The line of a token is none of a tag, as there is a blank in it. -/
theorem Tagged.shown_mem_elementLines_iff (h : mark.Tagged) (hline : mark.OnLine source) :
    mark.shown source ∈ elementLines ↔ mark.token? = none := by
  cases mark with
  | opening tag =>
    have hmem : (opening tag).shown source ∈ elementLines := List.mem_flatMap.2 ⟨tag, h, by
      simp [shown, Mark.text?]⟩
    simp [hmem, token?]
  | closing tag =>
    have hmem : (closing tag).shown source ∈ elementLines := List.mem_flatMap.2 ⟨tag, h, by
      simp [shown, Mark.text?]⟩
    simp [hmem, token?]
  | token t =>
    obtain ⟨text, cs, htext, -, -⟩ := hline
    have hblank : ' ' ∈ (token t).shown source := by
      cases ht : t.text? source <;> simp [shown, Mark.text?, ht] at htext ⊢
    have hsolid : ∀ cs ∈ elementLines, ' ' ∉ cs := by decide
    simpa [token?] using fun hmem => hsolid _ hmem hblank

end Mark

/-! ### Lines of listings -/

/-- A line without the blanks that it begins with. -/
def unindent (line : List Char) : List Char := line.dropWhile (· = ' ')

def Line.shown (source : String) (line : Line) : List Char :=
  (indentation line.depth).toList ++ line.mark.shown source

variable {source : String}

theorem blank_of_mem_indentation {depth : Nat} {c : Char} (h : c ∈ (indentation depth).toList) :
    c = ' ' := by
  induction depth with
  | zero => simp [indentation] at h
  | succ depth ih =>
    rw [indentation, List.replicate_succ, String.join_cons, String.toList_append,
      List.mem_append] at h
    rcases h with h | h
    · simpa using h
    · exact ih h

theorem unindent_shown {line : Line} (h : line.mark.OnLine source) :
    unindent (line.shown source) = line.mark.shown source := by
  obtain ⟨text, cs, htext, hcs, -⟩ := h
  have hblanks : ∀ c ∈ (indentation line.depth).toList, (c = ' ' : Bool) = true := by
    intro c hc
    exact decide_eq_true (blank_of_mem_indentation hc)
  rw [unindent, Line.shown, List.dropWhile_append_of_pos hblanks, Mark.shown, htext,
    Option.getD_some, hcs]
  rfl

theorem Line.text?_eq {line : Line} (h : line.mark.OnLine source) :
    line.text? source = some (String.ofList (line.shown source) ++ "\n") := by
  obtain ⟨text, cs, htext, -, -⟩ := h
  simp [Line.text?, Line.shown, Mark.shown, htext]

/-- Each mark is written to a line of its own. -/
theorem exists_textLines_writeLines? {lines : List Line}
    (h : ∀ line ∈ lines, line.mark.OnLine source) :
    ∃ text, writeLines? source lines = some text ∧
      textLines text = lines.map (Line.shown source) ++ [[]] := by
  let texts := lines.map fun line => String.ofList (line.shown source)
  have hwrite : lines.mapM (Line.text? source) = some (texts.map (· ++ "\n")) := by
    induction lines with
    | nil => rfl
    | cons line lines ih =>
      rw [List.forall_mem_cons] at h
      simp [texts, Line.text?_eq h.1, ih h.2]
  have hfeeds : ∀ text ∈ texts, '\n' ∉ text.toList := by
    intro text htext hmem
    obtain ⟨line, hline, rfl⟩ := List.mem_map.1 htext
    obtain ⟨text, cs, htext, hcs, hfeed⟩ := h line hline
    rw [String.toList_ofList, Line.shown, List.mem_append] at hmem
    rcases hmem with hmem | hmem
    · exact absurd (blank_of_mem_indentation hmem) (by decide)
    · rw [Mark.shown, htext, Option.getD_some, hcs, List.mem_cons] at hmem
      exact hmem.elim (by decide) hfeed
  refine ⟨String.join (texts.map (· ++ "\n")), by simp [writeLines?, hwrite], ?_⟩
  rw [textLines_join hfeeds]
  simp [texts]

/-- Of the lines of a tree, those that are not tags of elements show its tokens. -/
theorem filter_shown_eq {lines : List Line} (htagged : ∀ line ∈ lines, line.mark.Tagged)
    (hline : ∀ line ∈ lines, line.mark.OnLine source) :
    ((lines.map (Line.shown source)).map unindent).filter (· ∉ elementLines) =
      (shownTokens lines).map fun t => (Mark.token t).shown source := by
  induction lines with
  | nil => rfl
  | cons line lines ih =>
    rw [List.forall_mem_cons] at htagged hline
    have hrest := ih htagged.2 hline.2
    have htag := htagged.1.shown_mem_elementLines_iff hline.1
    rw [List.map_cons, List.map_cons, unindent_shown hline.1, shownTokens, List.filterMap_cons]
    cases hmark : line.mark with
    | opening tag | closing tag =>
      rw [hmark] at htag
      rw [List.filter_cons_of_neg (by simpa using htag.2 rfl), hrest]
      rfl
    | token t =>
      rw [hmark] at htag
      have hnot : (Mark.token t).shown source ∉ elementLines := by
        intro hmem
        cases htag.1 hmem
      rw [List.filter_cons_of_pos (by simpa using hnot), hrest]
      rfl

/-- Of the tokens of a source, all but the last are listed. -/
theorem filter_eq_dropLast {tokens : List Token} (h : tokenize source = .ok tokens) :
    tokens.filter (·.kind ≠ .endOfSource) = tokens.dropLast := by
  obtain ⟨front, last, rfl, hlast, hfront⟩ := tokenize_lexemes h
  have hall : front.filter (·.kind ≠ .endOfSource) = front :=
    List.filter_eq_self.2 fun t ht => decide_eq_true (hfront t ht).1
  rw [List.dropLast_concat, List.filter_append, hall]
  simp [hlast]

theorem filter_tokens_of_parseSource {unit : String} {decl : ClassDecl} {tokens : List Token}
    (h : parseSource unit source = .ok decl) (htokens : tokenize source = .ok tokens) :
    tokens.filter (·.kind ≠ .endOfSource) = decl.tokens := by
  obtain ⟨⟨hfront, -⟩, -⟩ := (parseSource_eq_ok_iff htokens).1 h
  rw [filter_eq_dropLast htokens, hfront]

theorem onLine_classDecl {decl : ClassDecl} (h : ∀ t ∈ decl.tokens, t.LiesIn source) :
    ∀ line ∈ (Outline.classDecl decl).lines, line.mark.OnLine source := by
  intro line hline
  have hshown : ∀ t ∈ line.mark.token?, t ∈ shownTokens (Outline.classDecl decl).lines :=
    fun t ht => List.mem_filterMap.2 ⟨line, hline, ht⟩
  rw [Outline.lines] at hline hshown
  rw [Outline.shownTokens_linesAt, Outline.classDecl_tokens] at hshown
  have htagged := (Outline.classDecl_tagged decl).linesAt 0 _ line hline
  exact htagged.onLine fun t ht => h t (hshown t ht)

theorem exists_textLines_listTokens? {tokens : List Token} (h : ∀ t ∈ tokens, t.LiesIn source) :
    ∃ listing, listTokens? source tokens = some listing ∧
      textLines listing = "<tokens>".toList ::
        (tokens.filter (·.kind ≠ .endOfSource)).map (fun t => (Mark.token t).shown source)
          ++ ["</tokens>".toList, []] := by
  let shown := tokens.filter (·.kind ≠ .endOfSource)
  let lines : List Line :=
    ⟨0, .opening "tokens"⟩ :: shown.map (⟨0, .token ·⟩) ++ [⟨0, .closing "tokens"⟩]
  have houter : (Mark.opening "tokens").OnLine source ∧ (Mark.closing "tokens").OnLine source :=
    Mark.onLine_tag (by decide)
  have honLine : ∀ line ∈ lines, line.mark.OnLine source := by
    intro line hline
    rcases List.mem_append.1 hline with hline | hline
    · rcases List.mem_cons.1 hline with rfl | hline
      · exact houter.1
      · obtain ⟨t, ht, rfl⟩ := List.mem_map.1 hline
        exact Mark.onLine_token (h t (List.mem_of_mem_filter ht))
    · obtain rfl := List.mem_singleton.1 hline
      exact houter.2
  obtain ⟨listing, hlisting, hlines⟩ := exists_textLines_writeLines? honLine
  refine ⟨listing, (listTokens?_eq source tokens).trans hlisting, ?_⟩
  have hflush (mark : Mark) : Line.shown source ⟨0, mark⟩ = mark.shown source := rfl
  rw [hlines]
  simp [lines, shown, hflush, Mark.shown, Mark.text?]

/-- The listing of the tree of a source shows the same tokens as that of its tokens. Without the
tags of its elements and the blanks in front, its lines are those between the outer tags there, one
for each token but the end of the source. -/
theorem listTree?_shows_tokens {unit : String} {decl : ClassDecl}
    (h : parseSource unit source = .ok decl) :
    ∃ (tokens : List Token) (tree listing : String) (treeLines lines : List (List Char)),
      tokenize source = .ok tokens ∧ listTree? source decl = some tree ∧
      listTokens? source tokens = some listing ∧ textLines tree = treeLines ++ [[]] ∧
      textLines listing = "<tokens>".toList :: lines ++ ["</tokens>".toList, []] ∧
      lines.length + 1 = tokens.length ∧
      (treeLines.map unindent).filter (· ∉ elementLines) = lines := by
  obtain ⟨tokens, htokens, hdecl⟩ := tokens_of_parseSource h
  have hlies : ∀ t ∈ tokens, t.LiesIn source := fun t ht => liesIn_of_tokenize htokens ht
  have htagged : ∀ line ∈ (Outline.classDecl decl).lines, line.mark.Tagged := by
    rw [Outline.lines]
    exact (Outline.classDecl_tagged decl).linesAt 0 _
  have honLine : ∀ line ∈ (Outline.classDecl decl).lines, line.mark.OnLine source :=
    onLine_classDecl fun t ht => hlies t (List.mem_of_mem_dropLast (hdecl ▸ ht))
  obtain ⟨tree, htree, htreeLines⟩ := exists_textLines_writeLines? honLine
  rw [← listTree?_eq] at htree
  obtain ⟨listing, hlisting, hlines⟩ := exists_textLines_listTokens? hlies
  rw [filter_tokens_of_parseSource h htokens] at hlines
  refine ⟨tokens, tree, listing, _, _, htokens, htree, hlisting, htreeLines, hlines, ?_, ?_⟩
  · have hne : 0 < tokens.length := by
      obtain ⟨front, last, rfl, -⟩ := tokenize_lexemes htokens
      simp
    rw [List.length_map, hdecl, List.length_dropLast]
    omega
  · rw [filter_shown_eq htagged honLine, Outline.lines, Outline.shownTokens_linesAt,
      Outline.classDecl_tokens]

/-- A function that passes a string on, in which there is markup. -/
def markupSource : String :=
  "class A \x7b function void f() \x7b do B.g(\"<1\"); return; \x7d \x7d"

def markupClass : ClassDecl :=
  let argument : Expr := .mk (.string "<1" ⟨37, 4⟩) .nil
  let call : Call := .mk (some (⟨"B", ⟨33, 1⟩⟩, ⟨34, 1⟩)) ⟨"g", ⟨35, 1⟩⟩ ⟨36, 1⟩
    (.some argument .nil) ⟨41, 1⟩
  let f : Subroutine := ⟨.function, ⟨10, 8⟩, .void ⟨19, 4⟩, ⟨"f", ⟨24, 1⟩⟩, ⟨25, 1⟩, none, ⟨26, 1⟩,
    ⟨⟨28, 1⟩, [], .cons (.perform ⟨30, 2⟩ call ⟨42, 1⟩) (.cons (.finish ⟨44, 6⟩ none ⟨50, 1⟩) .nil),
      ⟨52, 1⟩⟩⟩
  ⟨⟨0, 5⟩, ⟨"A", ⟨6, 1⟩⟩, ⟨8, 1⟩, [], [f], ⟨54, 1⟩⟩

theorem parseSource_markup : parseSource "A" markupSource = .ok markupClass :=
  parseSource_of_tokens (by decide +kernel) (by decide +kernel) (by decide)

/-- The listings of the function with markup in a string, twenty-one tokens. -/
theorem listTree?_markup :
    parseSource "A" markupSource = .ok markupClass ∧
    ∃ (tokens : List Token) (tree listing : String) (treeLines lines : List (List Char)),
      tokenize markupSource = .ok tokens ∧ listTree? markupSource markupClass = some tree ∧
      listTokens? markupSource tokens = some listing ∧ textLines tree = treeLines ++ [[]] ∧
      textLines listing = "<tokens>".toList :: lines ++ ["</tokens>".toList, []] ∧
      lines.length + 1 = tokens.length ∧
      (treeLines.map unindent).filter (· ∉ elementLines) = lines :=
  ⟨parseSource_markup, listTree?_shows_tokens parseSource_markup⟩

end Jack
