import Jack.Proofs.Listing.Writer

/-!
Listings of trees. The lines of an outline open and close elements in turn, each line as far to the
right as there are elements open around it. What they show is the tokens of the tree, in order.
-/

namespace Jack

/-! ### Elements that are open -/

/-- The tags of the elements that are open behind the lines, the innermost first. An element is
closed by its own tag before those around it, and each line is at the depth of its place. -/
def openAfter? : List String → List Line → Option (List String)
  | tags, [] => some tags
  | tags, ⟨depth, .opening tag⟩ :: lines =>
    if depth = tags.length then openAfter? (tag :: tags) lines else none
  | tags, ⟨depth, .token _⟩ :: lines => if depth = tags.length then openAfter? tags lines else none
  | [], ⟨_, .closing _⟩ :: _ => none
  | tag' :: tags, ⟨depth, .closing tag⟩ :: lines =>
    if tag = tag' ∧ depth = tags.length then openAfter? tags lines else none

namespace Outline

mutual

theorem openAfter?_linesAt : ∀ (o : Outline) (tags : List String) (rest : List Line),
    openAfter? tags (linesAt tags.length o ++ rest) = openAfter? tags rest
  | .token t, tags, rest => by simp [linesAt, openAfter?]
  | .element tag children, tags, rest => by
    have hchildren := openAfter?_childLinesAt children (tag :: tags)
      (⟨tags.length, .closing tag⟩ :: rest)
    simp only [List.length_cons] at hchildren
    simp [linesAt, openAfter?, hchildren]

theorem openAfter?_childLinesAt : ∀ (os : List Outline) (tags : List String) (rest : List Line),
    openAfter? tags (childLinesAt tags.length os ++ rest) = openAfter? tags rest
  | [], tags, rest => rfl
  | child :: children, tags, rest => by
    rw [childLinesAt, List.append_assoc, openAfter?_linesAt child,
      openAfter?_childLinesAt children]

end

/-- All elements of an outline are closed in the end. -/
theorem openAfter?_lines (o : Outline) : openAfter? [] o.lines = some [] := by
  have hlines := openAfter?_linesAt o [] []
  rwa [List.append_nil, List.length_nil] at hlines

/-! ### Tokens in order -/

mutual

def tokens : Outline → List Token
  | .token t => [t]
  | .element _ children => childTokens children

def childTokens : List Outline → List Token
  | [] => []
  | child :: children => tokens child ++ childTokens children

end

theorem childTokens_eq (os : List Outline) : childTokens os = os.flatMap tokens := by
  induction os with
  | nil => rfl
  | cons child children ih => rw [childTokens, ih, List.flatMap_cons]

end Outline

def Mark.token? : Mark → Option Token
  | token t => some t
  | _ => none

/-- The tokens that are shown in lines. -/
def shownTokens (lines : List Line) : List Token := lines.filterMap (·.mark.token?)

theorem shownTokens_append (lines lines' : List Line) :
    shownTokens (lines ++ lines') = shownTokens lines ++ shownTokens lines' :=
  List.filterMap_append

namespace Outline

mutual

theorem shownTokens_linesAt (depth : Nat) : ∀ o : Outline, shownTokens (linesAt depth o) = o.tokens
  | .token t => rfl
  | .element tag children => by
    have hopening (lines : List Line) :
        shownTokens (⟨depth, .opening tag⟩ :: lines) = shownTokens lines := rfl
    have hclosing : shownTokens [⟨depth, .closing tag⟩] = [] := rfl
    rw [linesAt, hopening, shownTokens_append, hclosing, List.append_nil,
      shownTokens_childLinesAt (depth + 1) children, tokens]

theorem shownTokens_childLinesAt (depth : Nat) : ∀ os : List Outline,
    shownTokens (childLinesAt depth os) = childTokens os
  | [] => rfl
  | child :: children => by
    rw [childLinesAt, shownTokens_append, shownTokens_linesAt depth child,
      shownTokens_childLinesAt depth children, childTokens]

end

variable (tag : String) (children : List Outline) (k : Keyword) (s : Symbol)
  (name : Ident) (span : Span)

@[simp] theorem tokens_element : (element tag children).tokens = children.flatMap tokens :=
  childTokens_eq children

@[simp] theorem tokens_keyword : (keyword k span).tokens = [(Terminal.keyword k span).token] := rfl

@[simp] theorem tokens_symbol : (symbol s span).tokens = [(Terminal.symbol s span).token] := rfl

@[simp] theorem tokens_ident : (ident name).tokens = [name.terminal.token] := rfl

mutual

theorem expr_tokens : ∀ e : Expr, (expr e).tokens = e.terminals.map Terminal.token
  | .mk head tail => by simp [expr, Expr.terminals, term_tokens head, opTerms_tokens tail]

theorem opTerms_tokens : ∀ xs : OpTerms,
    (opTerms xs).flatMap tokens = xs.terminals.map Terminal.token
  | .nil => rfl
  | .cons op span t rest => by
    simp [opTerms, OpTerms.terminals, term_tokens t, opTerms_tokens rest]

theorem term_tokens : ∀ t : Term, (term t).tokens = t.terminals.map Terminal.token
  | .integer _ _ => rfl
  | .string _ _ => rfl
  | .named value span => by simp [term, Term.terminals]
  | .paren left e right => by simp [term, Term.terminals, expr_tokens e]
  | .unary op span t => by simp [term, Term.terminals, term_tokens t]
  | .var name => by simp [term, Term.terminals]
  | .element name ix => by simp [term, Term.terminals, index_tokens ix]
  | .call c => by simp [term, Term.terminals, call_tokens c]

theorem index_tokens : ∀ ix : Index, (index ix).flatMap tokens = ix.terminals.map Terminal.token
  | .mk left e right => by simp [index, Index.terminals, expr_tokens e]

theorem call_tokens : ∀ c : Call, (call c).flatMap tokens = c.terminals.map Terminal.token
  | .mk none name left as right => by simp [call, Call.terminals, args_tokens as]
  | .mk (some (object, dot)) name left as right => by simp [call, Call.terminals, args_tokens as]

theorem args_tokens : ∀ as : Args, (args as).flatMap tokens = as.terminals.map Terminal.token
  | .none => rfl
  | .some head tail => by simp [args, Args.terminals, expr_tokens head, moreArgs_tokens tail]

theorem moreArgs_tokens : ∀ as : MoreArgs,
    (moreArgs as).flatMap tokens = as.terminals.map Terminal.token
  | .nil => rfl
  | .cons comma e rest => by
    simp [moreArgs, MoreArgs.terminals, expr_tokens e, moreArgs_tokens rest]

end

mutual

theorem stmt_tokens : ∀ s : Stmt, (stmt s).tokens = s.terminals.map Terminal.token
  | .assign keyword target none equal value semicolon => by
    simp [stmt, Stmt.terminals, expr_tokens value]
  | .assign keyword target (some ix) equal value semicolon => by
    simp [stmt, Stmt.terminals, expr_tokens value, index_tokens ix]
  | .branch keyword left condition right yes no => by
    simp [stmt, Stmt.terminals, expr_tokens condition, block_tokens yes, otherwise_tokens no]
  | .loop keyword left condition right body => by
    simp [stmt, Stmt.terminals, expr_tokens condition, block_tokens body]
  | .perform keyword c semicolon => by simp [stmt, Stmt.terminals, call_tokens c]
  | .finish keyword none semicolon => by simp [stmt, Stmt.terminals]
  | .finish keyword (some value) semicolon => by simp [stmt, Stmt.terminals, expr_tokens value]

theorem otherwise_tokens : ∀ no : Otherwise,
    (otherwise no).flatMap tokens = no.terminals.map Terminal.token
  | .none => rfl
  | .some keyword b => by simp [otherwise, Otherwise.terminals, block_tokens b]

theorem block_tokens : ∀ b : Block, (block b).flatMap tokens = b.terminals.map Terminal.token
  | .mk left body right => by simp [block, Block.terminals, stmts_tokens body]

theorem stmts_tokens : ∀ body : Stmts,
    (stmts body).flatMap tokens = body.terminals.map Terminal.token
  | .nil => rfl
  | .cons s rest => by simp [stmts, Stmts.terminals, stmt_tokens s, stmts_tokens rest]

end

theorem separated_tokens {α : Type} {item : α → List Outline} {f : α → List Terminal}
    (h : ∀ x, (item x).flatMap tokens = (f x).map Terminal.token) (xs : Separated α) :
    (separated item xs).flatMap tokens = (xs.terminals f).map Terminal.token := by
  simp [separated, Separated.terminals, commaTerminals, h, List.flatMap_assoc, List.map_flatMap]

theorem names_tokens (xs : Separated Ident) :
    (names xs).flatMap tokens = (xs.terminals Ident.terminals).map Terminal.token :=
  separated_tokens (fun name => by simp [Ident.terminals]) xs

theorem varType_tokens (type : VarType) :
    (varType type).tokens = type.terminals.map Terminal.token := by
  cases type <;> simp [varType, VarType.terminals]

theorem returnType_tokens (type : ReturnType) :
    (returnType type).tokens = type.terminals.map Terminal.token := by
  cases type <;> simp [returnType, ReturnType.terminals, varType_tokens]

theorem classVar_tokens (dec : ClassVarDec) :
    (classVar dec).tokens = dec.terminals.map Terminal.token := by
  simp [classVar, ClassVarDec.terminals, varType_tokens, names_tokens]

theorem var_tokens (dec : VarDec) : (var dec).tokens = dec.terminals.map Terminal.token := by
  simp [var, VarDec.terminals, varType_tokens, names_tokens]

theorem params_tokens (ps : Option (Separated Param)) :
    (params ps).flatMap tokens = (paramTerminals ps).map Terminal.token := by
  have hparam (p : Param) :
      [varType p.type, ident p.name].flatMap tokens = p.terminals.map Terminal.token := by
    simp [Param.terminals, varType_tokens]
  cases ps with
  | none => rfl
  | some ps => exact separated_tokens hparam ps

theorem body_tokens (b : Body) : (body b).tokens = b.terminals.map Terminal.token := by
  simp [body, Body.terminals, stmts_tokens, var_tokens, List.flatMap_map, List.map_flatMap]

theorem subroutine_tokens (sub : Subroutine) :
    (subroutine sub).tokens = sub.terminals.map Terminal.token := by
  simp [subroutine, Subroutine.terminals, returnType_tokens, params_tokens, body_tokens]

/-- The outline of a class has its tokens. -/
theorem classDecl_tokens (decl : ClassDecl) : (classDecl decl).tokens = decl.tokens := by
  simp [classDecl, ClassDecl.tokens, ClassDecl.terminals, classVar_tokens, subroutine_tokens,
    List.flatMap_map, List.map_flatMap]

end Outline

/-! ### Lines that are written -/

theorem Token.exists_text? {source text : String} {t : Token}
    (h : t.span.fragment? source = some text) : ∃ text, t.text? source = some text := by
  rw [text?]
  split <;> simp [h]

theorem Line.exists_text? {source : String} {line : Line}
    (h : ∀ t ∈ line.mark.token?, ∃ text, t.text? source = some text) :
    ∃ text, line.text? source = some text := by
  obtain ⟨depth, mark⟩ := line
  cases mark with
  | opening tag | closing tag => exact ⟨_, rfl⟩
  | token t =>
    obtain ⟨text, htext⟩ := h t rfl
    simp [text?, Mark.text?, htext]

theorem exists_mapM {α β : Type} {f : α → Option β} {as : List α}
    (h : ∀ a ∈ as, ∃ b, f a = some b) : ∃ bs, as.mapM f = some bs := by
  induction as with
  | nil => exact ⟨[], rfl⟩
  | cons a as ih =>
    obtain ⟨b, hb⟩ := h a List.mem_cons_self
    obtain ⟨bs, hbs⟩ := ih fun a' ha' => h a' (List.mem_cons_of_mem _ ha')
    exact ⟨b :: bs, by simp [hb, hbs]⟩

/-- Lines can be written if their tokens have texts. -/
theorem exists_writeLines? {source : String} {lines : List Line}
    (h : ∀ t ∈ shownTokens lines, ∃ text, t.text? source = some text) :
    ∃ text, writeLines? source lines = some text := by
  have hlines : ∃ texts, lines.mapM (Line.text? source) = some texts := by
    apply exists_mapM
    intro line hline
    apply Line.exists_text?
    intro t ht
    exact h t (List.mem_filterMap.2 ⟨line, hline, ht⟩)
  obtain ⟨texts, htexts⟩ := hlines
  simp [writeLines?, htexts]

theorem exists_listTokens? {source : String} {tokens : List Token}
    (h : ∀ t ∈ tokens, ∃ text, t.text? source = some text) :
    ∃ text, listTokens? source tokens = some text := by
  have hshown (ts : List Token) : shownTokens (ts.map (⟨0, .token ·⟩)) = ts := by
    induction ts with
    | nil => rfl
    | cons t ts ih => exact congrArg (t :: ·) ih
  rw [listTokens?_eq]
  apply exists_writeLines?
  intro t ht
  rw [shownTokens_append] at ht
  have hmem : t ∈ tokens.filter (·.kind ≠ .endOfSource) := by
    rcases List.mem_append.1 ht with ht | ht
    · rw [← hshown (tokens.filter _)]
      exact ht
    · simp [shownTokens, Mark.token?] at ht
  exact h t (List.mem_filter.1 hmem).1

theorem exists_listTree? {source : String} {decl : ClassDecl}
    (h : ∀ t ∈ decl.tokens, ∃ text, t.text? source = some text) :
    ∃ text, listTree? source decl = some text := by
  rw [listTree?_eq]
  apply exists_writeLines?
  rwa [Outline.lines, Outline.shownTokens_linesAt, Outline.classDecl_tokens]

end Jack
