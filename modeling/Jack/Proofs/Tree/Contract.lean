import Jack.Proofs.Tree.Loops
import Jack.Proofs.Tree.Misplaced
import Jack.Proofs.Tree.Streams

/-!
What the parts of the grammar do with the stream that they are read from. A part that is read has
taken its own tokens and nothing else. A part that is left out has left the stream as it was. A part
that fails leaves the stream at the token that the error is about.
-/

namespace Jack

namespace Reader

variable {α : Type} {c : Cursor} {f : α → List Terminal} {good : α → Prop}

/-! ### Single readers -/

theorem comma?_offers :
    Offers (accept? (.symbol .comma)) (fun span => [.symbol .comma span]) fun _ => True := by
  intro c hc
  refine Gives.accept?.mono fun found c₁ h => ?_
  cases found with
  | none => exact h.2
  | some span => exact ⟨h.2 ▸ .of_current hc h.1 trivial, trivial⟩

theorem namedConstant_takes :
    Takes namedConstant (fun x => [.keyword x.1.keyword x.2]) fun _ => True := by
  intro c hc
  refine .bindCurrent ?_
  split
  next value hvalue =>
    refine (Gives.takeKeyword hc (keyword_of_ofKind? hvalue)).bind fun span c₁ h₁ => ?_
    exact .pure ⟨h₁, trivial⟩
  next => exact .unexpected

theorem namedConstant_tracks {p q : Nat} :
    Tracks p q (fun x : NamedConstant × Span => [.keyword x.1.keyword x.2]) namedConstant
      namedConstant := by
  intro c hc
  refine .bindCurrent ?_ fun t ht => by simp only [ht]
  cases hvalue : NamedConstant.ofKind? c.current.kind with
  | none => exact .unexpected hc ⟨_, mem_words _ (.null, ⟨0, 0⟩)⟩
  | some value =>
    apply Follows.widen
    · apply (takeKeyword_follows hc (keyword_of_ofKind? hvalue)).bind hc
      intro span span' c₁ hc₁
      exact .pure hc₁ trivial trivial
    · rintro _ ⟨_, ⟨span, rfl⟩, _, rfl, rfl⟩
      exact ⟨(value, span), rfl⟩

/-- The end of the source behind a class is not moved over. -/
theorem unit_takes (levels : Nat) :
    Takes (unit levels) ClassDecl.terminals fun decl => decl.depth ≤ levels := by
  intro c hc
  refine (classDecl_takes levels c hc).bind fun decl c₁ h₁ => ?_
  refine Gives.expect.bind fun span c₂ h₂ => .pure ?_
  have hstays : c₂ = c₁ := Cursor.Onward.eq_of_end (h₂.2 ▸ .advance) (by rw [h₂.1])
  exact hstays ▸ h₁

theorem Takes.forget {r : Reader α} (h : Takes r f good) : Takes r f fun _ => True :=
  fun c hc => (h c hc).mono fun _ _ htook => ⟨htook.1, trivial⟩

theorem Offers.takes {item : Reader (Option α)} (h : Offers item f good) :
    Takes item (fun found => found.elim [] f) fun _ => True := by
  intro c hc
  refine (h c hc).mono fun found c₁ htook => ?_
  cases found with
  | none =>
    obtain rfl : c₁ = c := htook
    exact ⟨.refl hc, trivial⟩
  | some a => exact ⟨htook.1, trivial⟩

/-- A reader that fails stops behind tokens that it has taken, at the one that the error names. -/
def Stops (c : Cursor) (halt : Halt) : Prop :=
  NamesCurrent halt ∧ ∃ word, Took c word halt.cursor

theorem Follows.stops {r r' : Reader α} {L : Language Terminal}
    (h : Follows 0 0 L good r r' c) {halt : Halt} (hr : r c = .error halt) : Stops c halt := by
  obtain ⟨hnames, word, -, -, htook⟩ := h.ends.error halt hr
  exact ⟨hnames, word, htook⟩

theorem Proposes.stops {item item' : Reader (Option α)} {L : Language Terminal}
    (h : Proposes 0 0 L item item' c) {halt : Halt} (hitem : item c = .error halt) :
    Stops c halt := by
  rcases h with ⟨hdeclines, -⟩ | hfollows
  · rw [hdeclines] at hitem
    cases hitem
  · exact hfollows.stops hitem

theorem head?_elim_iff_opens {kind : Kind} :
    (∃ found : Option α, ((found.elim [] f).map Terminal.token).head?.map Token.kind = some kind) ↔
      Opens f kind := by
  constructor
  · rintro ⟨found, hfound⟩
    cases found with
    | none => cases hfound
    | some a =>
      cases hx : f a with
      | nil => simp [hx] at hfound
      | cons x rest => exact ⟨a, x, rest, hx, by simpa [hx] using hfound⟩
  · rintro ⟨a, x, rest, hx, hkind⟩
    exact ⟨some a, by simp [hx, hkind]⟩

theorem Decides.absent_iff {item : Reader (Option α)} (h : Decides f item) (c : Cursor) :
    (∃ found c₁, item c = .ok (found, c₁) ∧ found = none) ↔
      ¬ ∃ found : Option α, ((found.elim [] f).map Terminal.token).head?.map Token.kind =
        some c.current.kind := by
  rw [head?_elim_iff_opens, ← h.none_iff c]
  constructor
  · rintro ⟨_, c₁, hitem, rfl⟩
    exact ⟨c₁, hitem⟩
  · rintro ⟨c₁, hitem⟩
    exact ⟨none, c₁, hitem, rfl⟩

theorem eq_none_iff_elim_eq_nil (hne : ∀ a, f a ≠ []) (found : Option α) :
    found = none ↔ found.elim [] f = [] := by
  cases found with
  | none => exact iff_of_true rfl rfl
  | some a => exact iff_of_false (by simp) (hne a)

end Reader

/-! ### Parts of the grammar -/

namespace Part

def terminals : (part : Part) → part.Tree → List Terminal
  | unit => ClassDecl.terminals
  | classDecl => ClassDecl.terminals
  | classVar => fun found => found.elim [] ClassVarDec.terminals
  | type => VarType.terminals
  | returnType => ReturnType.terminals
  | subroutine => fun found => found.elim [] Subroutine.terminals
  | params => paramTerminals
  | someParams => Separated.terminals Param.terminals
  | param => fun found => found.elim [] Param.terminals
  | body => Body.terminals
  | var => fun found => found.elim [] VarDec.terminals
  | block => Block.terminals
  | statements => Stmts.terminals
  | statement => fun found => found.elim [] Stmt.terminals
  | assignment | branch | loop | perform | finish => Stmt.terminals
  | expr => Expr.terminals
  | term => Term.terminals
  | index => Index.terminals
  | call => Call.terminals
  | args => Args.terminals
  | ident => Ident.terminals
  | integer => fun x => [.integer x.1 x.2]
  | string => fun x => [.string x.1 x.2]
  | namedConstant => fun x => [.keyword x.1.keyword x.2]
  | comma => fun found => found.elim [] fun span => [.symbol .comma span]

/-- The tokens that a tree holds, from left to right. -/
def tokens (part : Part) (t : part.Tree) : List Token := (part.terminals t).map Terminal.token

/-- The parts that need not be there. -/
def Optional : Part → Prop
  | classVar | subroutine | param | var | statement | comma => True
  | _ => False

/-- What is read in place of a part that is not there. -/
def Absent : (part : Part) → part.Tree → Prop
  | classVar => fun found => found = none
  | subroutine => fun found => found = none
  | param => fun found => found = none
  | var => fun found => found = none
  | statement => fun found => found = none
  | comma => fun found => found = none
  | _ => fun _ => False

/-- A token of this kind starts some tree. -/
def CanStart (part : Part) (kind : Kind) : Prop :=
  ∃ t, (part.tokens t).head?.map Token.kind = some kind

theorem reader_takes (part : Part) (levels : Nat) :
    Reader.Takes (part.counted levels) part.terminals fun _ => True := by
  have hexpr := Reader.expr_takes levels
  have hstatements := Reader.statements_takes levels
  cases part with
  | unit => exact (Reader.unit_takes levels).forget
  | classDecl => exact (Reader.classDecl_takes levels).forget
  | classVar => exact Reader.classVar?_offers.takes
  | type => exact Reader.varType_takes
  | returnType => exact Reader.returnType_takes
  | subroutine => exact (Reader.subroutine?_offers levels).takes
  | params => exact Reader.params_takes
  | someParams => exact Reader.param?_offers.separated.forget
  | param => exact Reader.param?_offers.takes
  | body => exact (Reader.body_takes levels).forget
  | var => exact Reader.var?_offers.takes
  | block => exact (Reader.blockWith_takes hstatements).forget
  | statements => exact hstatements.forget
  | statement => exact (Reader.statement?_offers hexpr hstatements).takes
  | assignment => exact (Reader.assignment_takes hexpr).forget
  | branch => exact (Reader.branch_takes hexpr hstatements).forget
  | loop => exact (Reader.loop_takes hexpr hstatements).forget
  | perform => exact (Reader.perform_takes hexpr).forget
  | finish => exact (Reader.finish_takes hexpr).forget
  | expr => exact hexpr.forget
  | term => exact (Reader.expr_term_take levels).2.forget
  | index => exact (Reader.indexWith_takes hexpr).forget
  | call => exact (Reader.callWith_takes hexpr).forget
  | args => exact (Reader.argsWith_takes hexpr).forget
  | ident => exact Reader.ident_takes
  | integer => exact Reader.integer_takes
  | string => exact Reader.string_takes
  | namedConstant => exact Reader.namedConstant_takes
  | comma => exact Reader.comma?_offers.takes

theorem reader_stops (part : Part) (levels : Nat) {c : Cursor} (hc : c.Readable) {halt : Halt}
    (h : part.counted levels c = .error halt) : Reader.Stops c halt := by
  have hexpr : Reader.Tracks 0 0 Expr.terminals _ _ :=
    (Reader.expr_term_track (Nat.le_refl levels)).1
  have hterm : Reader.Tracks 0 0 Term.terminals _ _ :=
    (Reader.expr_term_track (Nat.le_refl levels)).2
  have hstatements : Reader.Tracks 0 0 Stmts.terminals _ _ :=
    Reader.statements_track (Nat.le_refl levels)
  cases part with
  | unit =>
    obtain ⟨hnames, word, -, -, htook⟩ := Reader.unit_stops hc h
    exact ⟨hnames, word, htook⟩
  | classDecl => exact (Reader.classDecl_tracks (Nat.le_refl _) c hc).stops h
  | classVar => exact (Reader.classVar?_proposes hc).stops h
  | type => exact (Reader.varType_tracks c hc).stops h
  | returnType => exact (Reader.returnType_tracks c hc).stops h
  | subroutine => exact (Reader.subroutine?_proposes (Nat.le_refl _) hc).stops h
  | params => exact (Reader.params_tracks c hc).stops h
  | someParams =>
    exact (Reader.separated_follows (fun _ hc => Reader.param?_proposes hc) rfl hc).stops h
  | param => exact (Reader.param?_proposes hc).stops h
  | body => exact (Reader.body_tracks (Nat.le_refl _) c hc).stops h
  | var => exact (Reader.var?_proposes hc).stops h
  | block => exact (Reader.blockWith_tracks hstatements c hc).stops h
  | statements => exact (hstatements c hc).stops h
  | statement => exact (Reader.statement?_proposes hexpr hstatements hc).stops h
  | assignment => exact (Reader.assignment_tracks hexpr c hc).stops h
  | branch => exact (Reader.branch_tracks hexpr hstatements c hc).stops h
  | loop => exact (Reader.loop_tracks hexpr hstatements c hc).stops h
  | perform => exact (Reader.perform_tracks hexpr c hc).stops h
  | finish => exact (Reader.finish_tracks hexpr c hc).stops h
  | expr => exact (hexpr c hc).stops h
  | term => exact (hterm c hc).stops h
  | index => exact (Reader.indexWith_tracks hexpr c hc).stops h
  | call => exact (Reader.callWith_tracks hexpr c hc).stops h
  | args => exact (Reader.argsWith_tracks hexpr c hc).stops h
  | ident => exact (Reader.ident_tracks c hc).stops h
  | integer => exact (Reader.integer_tracks c hc).stops h
  | string => exact (Reader.string_tracks c hc).stops h
  | namedConstant => exact (Reader.namedConstant_tracks c hc).stops h
  | comma => exact (Reader.acceptSymbol?_proposes hc .comma).stops h

theorem absent_iff_terminals {part : Part} (h : part.Optional) (t : part.Tree) :
    part.Absent t ↔ part.terminals t = [] := by
  cases part with
  | classVar => exact Reader.eq_none_iff_elim_eq_nil (fun _ => List.cons_ne_nil _ _) t
  | subroutine => exact Reader.eq_none_iff_elim_eq_nil (fun _ => List.cons_ne_nil _ _) t
  | param => exact Reader.eq_none_iff_elim_eq_nil (fun _ => by simp [Param.terminals]) t
  | var => exact Reader.eq_none_iff_elim_eq_nil (fun _ => List.cons_ne_nil _ _) t
  | statement =>
    exact Reader.eq_none_iff_elim_eq_nil (fun s => by cases s <;> simp [Stmt.terminals]) t
  | comma => exact Reader.eq_none_iff_elim_eq_nil (fun _ => List.cons_ne_nil _ _) t
  | _ => exact h.elim

theorem absent_iff_not_canStart {part : Part} (h : part.Optional) (levels : Nat) (c : Cursor) :
    (∃ t c₁, part.counted levels c = .ok (t, c₁) ∧ part.Absent t) ↔
      ¬ part.CanStart c.current.kind := by
  cases part with
  | classVar => exact Reader.classVar?_decides.absent_iff c
  | subroutine => exact (Reader.subroutine?_decides levels).absent_iff c
  | param => exact Reader.param?_decides.absent_iff c
  | var => exact Reader.var?_decides.absent_iff c
  | statement => exact (Reader.statement?_decides _ _).absent_iff c
  | comma => exact Reader.comma?_decides.absent_iff c
  | _ => exact h.elim

end Part

/-! ### Streams -/

namespace Stream

/-- The stream over the tokens of a source that has `i` of them behind it. -/
def atToken (source : String) (tokens : List Token) (i depth : Nat) : Stream :=
  ⟨tokens, .ofTokens source (tokens.drop i), depth⟩

section

variable {source : String} {front : List Token} {last : Token} {i depth : Nat}
  (hlast : last.kind = .endOfSource) (hi : i ≤ front.length)

include hlast hi in
theorem ofTokens_drop : Cursor.ofTokens source ((front ++ [last]).drop i) =
    ⟨source, front.drop i, last⟩ := by
  rw [List.drop_append_of_le_length hi, Cursor.ofTokens_append hlast]

variable (source depth) in
include hlast hi in
theorem current_atToken :
    (front ++ [last])[i]? = some (atToken source (front ++ [last]) i depth).cursor.current := by
  have hhead : (front.drop i ++ [last]).head? =
      some (⟨source, front.drop i, last⟩ : Cursor).current := by
    cases front.drop i <;> rfl
  rw [atToken, ofTokens_drop hlast hi, ← hhead, ← List.drop_append_of_le_length hi, List.head?_drop]

include hlast hi in
/-- What is taken are the next tokens, and the cursor stands behind them. -/
theorem took_atToken {xs : List Terminal} {c : Cursor}
    (h : Took (atToken source (front ++ [last]) i depth).cursor xs c) (depth' : Nat) :
    i + xs.length ≤ front.length ∧
      ⟨front ++ [last], c, depth'⟩ = atToken source (front ++ [last]) (i + xs.length) depth' ∧
      xs.map Terminal.token = ((front ++ [last]).drop i).take xs.length := by
  obtain ⟨source', ahead, last'⟩ := c
  have hbefore := h.eq_before
  rw [atToken, ofTokens_drop hlast hi] at hbefore
  simp only [Cursor.before, Cursor.mk.injEq] at hbefore
  obtain ⟨rfl, hahead, rfl⟩ := hbefore
  have hlength := congrArg List.length hahead
  rw [List.length_drop, List.length_append, List.length_map] at hlength
  have hle : i + xs.length ≤ front.length := by omega
  refine ⟨hle, ?_, ?_⟩
  · rw [atToken, ofTokens_drop hlast hle, ← List.drop_drop, hahead, List.drop_left' (by simp)]
  · rw [List.drop_append_of_le_length hi, hahead, List.append_assoc, List.take_left' (by simp)]

include hlast hi in
theorem readable_atToken
    (hfront : ∀ token ∈ front, token.kind ≠ .endOfSource ∧ token.LiesIn source) :
    (atToken source (front ++ [last]) i depth).cursor.Readable := by
  rw [atToken, ofTokens_drop hlast hi]
  exact Cursor.readable_of_tokenize hlast fun t ht => hfront t (List.mem_of_mem_drop ht)

end

/-- What can be relied on where a part is read from a stream at the token `current`, the one with
number `i`, at some depth. -/
structure Contract (source : String) (tokens : List Token) (i depth : Nat) (current : Token)
    (part : Part) : Prop where
  /-- The tokens taken are those of the tree. A part that need not be there takes none exactly if it
  is not there. -/
  takes : ∀ t s, (atToken source tokens i depth).read part.reader = (.ok t, s) →
    ∃ j, i ≤ j ∧ j < tokens.length ∧ s = atToken source tokens j depth ∧
      part.tokens t = (tokens.drop i).take (j - i) ∧ (part.Optional → (part.Absent t ↔ j = i))
  declines : part.Optional →
    ((∃ t s, (atToken source tokens i depth).read part.reader = (.ok t, s) ∧ part.Absent t) ↔
      ¬ part.CanStart current.kind)
  /-- The error names the token at which the stream is left, no less far and no less deep. -/
  fails : ∀ e s, (atToken source tokens i depth).read part.reader = (.error e, s) →
    (e.Misplaced ∨ e.IsNesting) ∧
      ∃ j depth', i ≤ j ∧ depth ≤ depth' ∧ depth' ≤ maxDepth ∧
        s = atToken source tokens j depth' ∧ tokens[j]? = some e.found

/-- At every token of a source and at every depth, all parts keep the contract, and each loop over
parts comes to its end in the rounds that it has. -/
theorem read_keeps_contract {source : String} {tokens : List Token} {i depth : Nat}
    {current : Token} (htokens : tokenize source = .ok tokens) (hi : tokens[i]? = some current)
    (hdepth : depth ≤ maxDepth) :
    (∀ part, Contract source tokens i depth current part) ∧
      ∀ (loop : Loop) (fuel : Nat),
        Parser.Repeats (loop.reader fuel) [] (atToken source tokens i depth)
          (Parser.many (loop.reader fuel) (atToken source tokens i depth)) := by
  obtain ⟨front, last, rfl, hlast, hfront⟩ := tokenize_lexemes htokens
  have hle : i ≤ front.length := by
    obtain ⟨hlt, -⟩ := List.getElem?_eq_some_iff.1 hi
    simpa [Nat.lt_succ_iff] using hlt
  have hreadable : (atToken source (front ++ [last]) i depth).cursor.Readable :=
    readable_atToken hlast hle hfront
  refine ⟨fun part => ⟨?_, ?_, ?_⟩, fun loop fuel => loop.repeats fuel hreadable.closed⟩
  · rintro t ⟨tokens', c, depth'⟩ hread
    obtain ⟨hok, hsame, hdepth'⟩ := read_eq_ok_iff.1 hread
    obtain rfl : tokens' = front ++ [last] := hsame
    obtain rfl : depth = depth' := hdepth'.symm
    obtain ⟨htook, -⟩ := part.reader_takes _ _ hreadable.closed t c hok
    obtain ⟨hnext, hstream, htaken⟩ := took_atToken hlast hle htook depth
    refine ⟨i + (part.terminals t).length, Nat.le_add_right _ _, ?_, hstream, ?_, fun h => ?_⟩
    · rw [List.length_append, List.length_singleton]
      omega
    · rw [Nat.add_sub_cancel_left]
      exact htaken
    · rw [Part.absent_iff_terminals h, ← List.length_eq_zero_iff]
      omega
  · intro h
    have hcurrent := hi.symm.trans (current_atToken source depth hlast hle)
    rw [Option.some.inj hcurrent]
    rw [← Part.absent_iff_not_canStart h (maxDepth - depth)]
    constructor
    · rintro ⟨t, s, hread, habsent⟩
      exact ⟨t, s.cursor, (read_eq_ok_iff.1 hread).1, habsent⟩
    · rintro ⟨t, c, hok, habsent⟩
      exact ⟨t, ⟨front ++ [last], c, depth⟩, read_eq_ok_iff.2 ⟨hok, rfl, rfl⟩, habsent⟩
  · rintro e ⟨tokens', c, depth'⟩ hread
    obtain ⟨opened, herror, rfl, rfl⟩ := read_eq_error_iff.1 hread
    obtain ⟨⟨hfound, hkind⟩, word, htook⟩ := part.reader_stops _ hreadable herror
    obtain ⟨hnext, hstream, -⟩ := took_atToken hlast hle htook (depth + opened)
    have hlimit := ((atToken source (front ++ [last]) i depth).read_leads part hdepth).depth_le
    rw [hread] at hlimit
    refine ⟨hkind.imp_right fun h => ⟨_, h⟩, i + word.length, depth + opened, Nat.le_add_right _ _,
      Nat.le_add_right _ _, hlimit, hstream, ?_⟩
    rw [current_atToken source (depth + opened) hlast hnext, ← hstream, ← hfound]

/-- An assignment of a number has two levels, so that it is read at a depth of 126 and no deeper.
The number is where a stream that is deeper stops. -/
theorem read_keeps_contract_at_limit :
    let source := "let x = 1;"
    ∃ tokens first, tokenize source = .ok tokens ∧ tokens[0]? = some first ∧
      (∃ t s, (atToken source tokens 0 126).read Part.statement.reader = (.ok t, s) ∧
        s.cursor.current.kind = .endOfSource) ∧
      (∃ e s, (atToken source tokens 0 127).read Part.statement.reader = (.error e, s) ∧
        s.cursor.current.kind = .integer) ∧
      Contract source tokens 0 126 first .statement ∧
      Contract source tokens 0 127 first .statement := by
  intro source
  have hruns : ∃ tokens ∈ (tokenize source).toOption, tokens[0]?.isSome = true ∧
      ((atToken source tokens 0 126).read Part.statement.reader).1.toOption.isSome = true ∧
      ((atToken source tokens 0 126).read Part.statement.reader).2.cursor.current.kind =
        .endOfSource ∧
      ((atToken source tokens 0 127).read Part.statement.reader).1.toOption.isSome = false ∧
      ((atToken source tokens 0 127).read Part.statement.reader).2.cursor.current.kind =
        .integer := by
    decide +kernel
  obtain ⟨tokens, hmem, hfirst, hok, hend, herror, hinteger⟩ := hruns
  obtain ⟨first, hfirst⟩ := Option.isSome_iff_exists.1 hfirst
  have htokens : tokenize source = .ok tokens := by
    cases h : tokenize source with
    | error e => simp [h, Except.toOption] at hmem
    | ok tokens' =>
      rw [h] at hmem
      rw [Option.some.inj hmem]
  refine ⟨tokens, first, htokens, hfirst, ?_, ?_,
    (read_keeps_contract htokens hfirst (by decide)).1 _,
    (read_keeps_contract htokens hfirst (by decide)).1 _⟩
  · cases hread : (atToken source tokens 0 126).read Part.statement.reader with
    | mk result s =>
      rw [hread] at hok hend
      cases result with
      | error e => cases hok
      | ok t => exact ⟨t, s, rfl, hend⟩
  · cases hread : (atToken source tokens 0 127).read Part.statement.reader with
    | mk result s =>
      rw [hread] at herror hinteger
      cases result with
      | ok t => cases herror
      | error e => exact ⟨e, s, rfl, hinteger⟩

end Stream

end Jack
