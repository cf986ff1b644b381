import Jack.Proofs.Tree.Parsers
import Jack.Proofs.Tree.Tracking

/-!
Parts of the grammar that need not be there, and loops over them. Such a part is left out exactly
where the current token cannot start it. Each round of a loop takes a token, so that the tokens
ahead are rounds enough for it.
-/

namespace Jack

namespace Reader

variable {α : Type} {c : Cursor} {f : α → List Terminal} {good : α → Prop}

/-! ### Loops -/

/-- The loop of `many` with no bound on the rounds, with the items so far, last first. -/
inductive Repeats (item : Reader (Option α)) :
    List α → Cursor → Except Halt (List α × Cursor) → Prop
  | stop {seen : List α} {c c₁ : Cursor} :
    item c = .ok (none, c₁) → Repeats item seen c (.ok (seen.reverse, c₁))
  | fail {seen : List α} {c : Cursor} {halt : Halt} :
    item c = .error halt → Repeats item seen c (.error halt)
  | more {seen : List α} {c c₁ : Cursor} {a : α} {result : Except Halt (List α × Cursor)} :
    item c = .ok (some a, c₁) → Repeats item (a :: seen) c₁ result → Repeats item seen c result

/-- A loop with a round for each token ahead ends before the rounds do. -/
theorem manyFrom_repeats {item : Reader (Option α)} (hitem : Offers item f good)
    (hne : ∀ a, f a ≠ []) (hend : DeclinesAtEnd item) (seen : List α) (rounds : List Token)
    (hc : c.Closed) (hrounds : c.ahead.length ≤ rounds.length) :
    Repeats item seen c (manyFrom item seen rounds c) := by
  induction rounds generalizing seen c with
  | nil => exact .stop (hend c (hc.current_of_length (Nat.le_zero.1 hrounds)))
  | cons t rounds ih =>
    rw [manyFrom]
    cases hx : item c with
    | error halt => exact .fail hx
    | ok result =>
      obtain ⟨found, c₁⟩ := result
      cases found with
      | none => exact .stop hx
      | some a =>
        obtain ⟨htook, -⟩ := hitem c hc (some a) c₁ hx
        have hlength := htook.length_ahead
        have hpos := List.length_pos_iff.2 (hne a)
        rw [List.length_cons] at hrounds
        exact .more hx (ih (a :: seen) htook.closed (by omega))

theorem Offers.repeats {item : Reader (Option α)} (hitem : Offers item f good)
    (hne : ∀ a, f a ≠ []) (hend : DeclinesAtEnd item) (hc : c.Closed) :
    Repeats item [] c (Reader.many item c) :=
  manyFrom_repeats hitem hne hend [] c.ahead hc (Nat.le_refl _)

end Reader

namespace Parser

variable {α : Type}

/-- The loop of `many` with no bound on the rounds, with the items so far, last first. -/
inductive Repeats (item : Parser (Option α)) :
    List α → Stream → Except SyntaxError (List α) × Stream → Prop
  | stop {seen : List α} {s s₁ : Stream} :
    item s = (.ok none, s₁) → Repeats item seen s (.ok seen.reverse, s₁)
  | fail {seen : List α} {s s₁ : Stream} {e : SyntaxError} :
    item s = (.error e, s₁) → Repeats item seen s (.error e, s₁)
  | more {seen : List α} {s s₁ : Stream} {a : α} {result : Except SyntaxError (List α) × Stream} :
    item s = (.ok (some a), s₁) → Repeats item (a :: seen) s₁ result → Repeats item seen s result

end Parser

namespace Reader

variable {α : Type} {c : Cursor} {f : α → List Terminal} {good : α → Prop}

theorem Repeats.settle {depth : Nat} {item : Parser (Option α)} {item' : Reader (Option α)}
    {seen : List α} {result : Except Halt (List α × Cursor)} {s : Stream}
    (h : Repeats item' seen c result) (hitem : Parser.Matches depth item item')
    (hs : s.depth = depth) (hcursor : s.cursor = c) :
    Parser.Repeats item seen s (s.settle result) := by
  induction h generalizing s with
  | stop hx =>
    subst hcursor
    exact .stop (by rw [hitem s hs, hx]; rfl)
  | fail hx =>
    subst hcursor
    exact .fail (by rw [hitem s hs, hx]; rfl)
  | @more _ _ c₁ _ result hx _ ih =>
    subst hcursor
    have hmore : s.settle result = Stream.settle { s with cursor := c₁ } result := by
      cases result <;> rfl
    rw [hmore]
    exact .more (by rw [hitem s hs, hx]; rfl) (ih hs rfl)

/-! ### Readers that may decline -/

theorem Gives.any {r : Reader α} : Gives r c fun _ _ => True := fun _ _ _ => trivial

/-- Some tree starts with a token of this kind. -/
def Opens (f : α → List Terminal) (kind : Kind) : Prop := ∃ a, Starts (· = kind) (f a)

theorem not_opens_endOfSource : ¬ Opens f .endOfSource := by
  rintro ⟨a, x, rest, -, hx⟩
  exact x.kind_ne_endOfSource hx

/-- The reader declines exactly at the kinds that no tree starts with. -/
structure Decides (f : α → List Terminal) (item : Reader (Option α)) : Prop where
  finds : ∀ c : Cursor, Opens f c.current.kind → Gives item c fun found _ => found.isSome = true
  declines : ∀ c : Cursor, ¬ Opens f c.current.kind → item c = .ok (none, c)

namespace Decides

variable {item : Reader (Option α)}

theorem declinesAtEnd (h : Decides f item) : DeclinesAtEnd item :=
  fun c hc => h.declines c (hc ▸ not_opens_endOfSource)

theorem none_iff (h : Decides f item) (c : Cursor) :
    (∃ c₁, item c = .ok (none, c₁)) ↔ ¬ Opens f c.current.kind := by
  constructor
  · rintro ⟨c₁, hnone⟩ hopens
    cases h.finds c hopens none c₁ hnone
  · intro hopens
    exact ⟨c, h.declines c hopens⟩

end Decides

theorem classVar?_decides : Decides ClassVarDec.terminals classVar? := by
  have hopens (kind : Kind) :
      Opens ClassVarDec.terminals kind ↔ ∃ value, ClassVarKind.ofKind? kind = some value := by
    constructor
    · rintro ⟨⟨value, keyword, type, names, semicolon⟩, x, rest, hx, rfl⟩
      obtain ⟨rfl, -⟩ := List.cons.inj hx
      exact ⟨value, by cases value <;> rfl⟩
    · rintro ⟨value, hvalue⟩
      exact ⟨⟨value, ⟨0, 0⟩, Classical.arbitrary _, Classical.arbitrary _, ⟨0, 0⟩⟩,
        .cons (keyword_of_classVarKind hvalue).symm⟩
  constructor
  · intro c h
    obtain ⟨value, hvalue⟩ := (hopens _).1 h
    refine .bindCurrent ?_
    rw [hvalue]
    exact Gives.any.bind fun _ _ _ => Gives.any.bind fun _ _ _ => Gives.any.bind fun _ _ _ =>
      Gives.any.bind fun _ _ _ => .pure rfl
  · intro c h
    rw [hopens, not_exists, ← Option.eq_none_iff_forall_ne_some] at h
    exact bind_of_ok rfl (by rw [h]; rfl)

theorem subroutine?_decides (levels : Nat) :
    Decides Subroutine.terminals (subroutine? levels) := by
  have hopens (kind : Kind) :
      Opens Subroutine.terminals kind ↔ ∃ value, SubroutineKind.ofKind? kind = some value := by
    constructor
    · rintro ⟨⟨value, keyword, returns, name, left, params, right, body⟩, x, rest, hx, rfl⟩
      obtain ⟨rfl, -⟩ := List.cons.inj hx
      exact ⟨value, by cases value <;> rfl⟩
    · rintro ⟨value, hvalue⟩
      exact ⟨⟨value, ⟨0, 0⟩, Classical.arbitrary _, Classical.arbitrary _, ⟨0, 0⟩, none, ⟨0, 0⟩,
        Classical.arbitrary _⟩, .cons (keyword_of_subroutineKind hvalue).symm⟩
  constructor
  · intro c h
    obtain ⟨value, hvalue⟩ := (hopens _).1 h
    refine .bindCurrent ?_
    rw [hvalue]
    exact Gives.any.bind fun _ _ _ => Gives.any.bind fun _ _ _ => Gives.any.bind fun _ _ _ =>
      Gives.any.bind fun _ _ _ => Gives.any.bind fun _ _ _ => Gives.any.bind fun _ _ _ =>
      Gives.any.bind fun _ _ _ => .pure rfl
  · intro c h
    rw [hopens, not_exists, ← Option.eq_none_iff_forall_ne_some] at h
    exact bind_of_ok rfl (by rw [h]; rfl)

theorem param?_decides : Decides Param.terminals param? := by
  have hopens (kind : Kind) : Opens Param.terminals kind ↔ VarType.starts kind = true := by
    constructor
    · rintro ⟨⟨type, name⟩, x, rest, hx, rfl⟩
      obtain ⟨y, rest', hy, hstarts⟩ := type.starts_terminals
      rw [Param.terminals, hy] at hx
      obtain ⟨rfl, -⟩ := List.cons.inj hx
      exact hstarts
    · intro hstarts
      cases kind with
      | keyword k =>
        obtain ⟨type, htype⟩ := Option.isSome_iff_exists.1 hstarts
        obtain rfl := keyword_of_ofKeyword? htype
        exact ⟨⟨.primitive type ⟨0, 0⟩, Classical.arbitrary _⟩, .cons rfl⟩
      | identifier => exact ⟨⟨.object (Classical.arbitrary _), Classical.arbitrary _⟩, .cons rfl⟩
      | symbol s => cases hstarts
      | integer => cases hstarts
      | string => cases hstarts
      | endOfSource => cases hstarts
  constructor
  · intro c h
    refine .bindCurrent ?_
    rw [if_pos ((hopens _).1 h)]
    exact Gives.any.bind fun _ _ _ => Gives.any.bind fun _ _ _ => .pure rfl
  · intro c h
    rw [hopens] at h
    exact bind_of_ok rfl (by rw [if_neg h]; rfl)

theorem comma?_decides :
    Decides (fun span => [Terminal.symbol .comma span]) (accept? (.symbol .comma)) := by
  constructor
  · rintro c ⟨span, x, rest, hx, hkind⟩
    obtain ⟨rfl, -⟩ := List.cons.inj hx
    refine Gives.accept?.mono fun found c₁ h => ?_
    cases found with
    | none => exact absurd hkind.symm h.1
    | some span => rfl
  · intro c h
    exact accept?_of_kind_ne fun hkind => h ⟨⟨0, 0⟩, .cons hkind.symm⟩

theorem var?_decides : Decides VarDec.terminals var? := by
  constructor
  · rintro c ⟨dec, x, rest, hx, hkind⟩
    obtain ⟨rfl, -⟩ := List.cons.inj hx
    refine Gives.accept?.bind fun found c₁ h => ?_
    cases found with
    | none => exact absurd hkind.symm h.1
    | some keyword =>
      exact Gives.any.bind fun _ _ _ => Gives.any.bind fun _ _ _ => Gives.any.bind fun _ _ _ =>
        .pure rfl
  · intro c h
    have hkind : c.current.kind ≠ .keyword .kwVar := fun hkind =>
      h ⟨⟨⟨0, 0⟩, Classical.arbitrary _, Classical.arbitrary _, ⟨0, 0⟩⟩, .cons hkind.symm⟩
    exact bind_of_ok (accept?_of_kind_ne hkind) rfl

theorem statement?_decides (expr : Reader Expr) (statements : Reader Stmts) :
    Decides Stmt.terminals (statement? expr statements) := by
  constructor
  · rintro c ⟨s, x, rest, hx, hkind⟩
    refine .bindCurrent ?_
    -- The first terminal of a statement is its keyword.
    cases s <;> obtain ⟨rfl, -⟩ := List.cons.inj hx <;> rw [← hkind] <;>
      exact .map fun _ _ _ => rfl
  · intro c h
    refine bind_of_ok rfl ?_
    generalize c.current.kind = kind at h
    split
    · exact absurd ⟨.assign ⟨0, 0⟩ (Classical.arbitrary _) none ⟨0, 0⟩ (Classical.arbitrary _)
        ⟨0, 0⟩, .cons rfl⟩ h
    · exact absurd ⟨.branch ⟨0, 0⟩ ⟨0, 0⟩ (Classical.arbitrary _) ⟨0, 0⟩ (Classical.arbitrary _)
        .none, .cons rfl⟩ h
    · exact absurd ⟨.loop ⟨0, 0⟩ ⟨0, 0⟩ (Classical.arbitrary _) ⟨0, 0⟩ (Classical.arbitrary _),
        .cons rfl⟩ h
    · exact absurd ⟨.perform ⟨0, 0⟩ (Classical.arbitrary _) ⟨0, 0⟩, .cons rfl⟩ h
    · exact absurd ⟨.finish ⟨0, 0⟩ none ⟨0, 0⟩, .cons rfl⟩ h
    · rfl

end Reader

/-! ### Loops of the grammar -/

/-- The repetitions in the grammar. -/
inductive Loop where
  | classVars | subroutines | vars | statements | names | params | args | operators

namespace Loop

def Item : Loop → Type
  | classVars => ClassVarDec
  | subroutines => Subroutine
  | vars => VarDec
  | statements => Stmt
  | names => Span × Ident
  | params => Span × Param
  | args => Span × Expr
  | operators => BinaryOp × Span × Term

/-- The reader of one round, for so many levels. -/
def reader {m : Type → Type} [Monad m] [Reads m] : (loop : Loop) → Nat → m (Option loop.Item)
  | classVars => fun _ => Grammar.classVar?
  | subroutines => Grammar.subroutine?
  | vars => fun _ => Grammar.var?
  | statements => fun levels =>
    Grammar.statement? (Grammar.expr levels) (Grammar.statements levels)
  | names => fun _ => Grammar.nextItem (some <$> Grammar.ident)
  | params => fun _ => Grammar.nextItem Grammar.param?
  | args => fun levels => Grammar.nextItem (Grammar.argument? (Grammar.expr levels))
  | operators => fun levels => Grammar.opTerm? (Grammar.term levels)

theorem reader_matches (loop : Loop) (fuel depth : Nat) :
    Parser.Matches depth (loop.reader fuel) (loop.reader (min fuel (maxDepth - depth))) := by
  have hexpr := Parser.expr_matches fuel depth
  cases loop with
  | classVars => exact Parser.classVar?_matches
  | subroutines => exact Parser.subroutine?_matches fuel
  | vars => exact Parser.var?_matches
  | statements => exact Parser.statement?_matches hexpr (Parser.statements_matches fuel depth)
  | names => exact Parser.nextItem_matches (Parser.ident_matches.map some)
  | params => exact Parser.nextItem_matches Parser.param?_matches
  | args => exact Parser.nextItem_matches (Parser.argument?_matches hexpr)
  | operators => exact Parser.opTerm?_matches (Parser.expr_term_match fuel depth).2

theorem reader_repeats (loop : Loop) (levels : Nat) {c : Cursor} (hc : c.Closed) :
    Reader.Repeats (loop.reader levels) [] c (Reader.many (loop.reader levels) c) := by
  have hexpr := Reader.expr_takes levels
  have hcomma {α : Type} {f : α → List Terminal} (x : Span × α) : commaTerminals f x ≠ [] :=
    List.cons_ne_nil _ _
  cases loop with
  | classVars =>
    exact Reader.classVar?_offers.repeats (fun _ => List.cons_ne_nil _ _)
      Reader.classVar?_decides.declinesAtEnd hc
  | subroutines =>
    exact (Reader.subroutine?_offers levels).repeats (fun _ => List.cons_ne_nil _ _)
      (Reader.subroutine?_decides levels).declinesAtEnd hc
  | vars =>
    exact Reader.var?_offers.repeats (fun _ => List.cons_ne_nil _ _)
      Reader.var?_decides.declinesAtEnd hc
  | statements =>
    have hne (s : Stmt) : s.terminals ≠ [] := by
      obtain ⟨x, rest, hx, -⟩ := s.starts_terminals
      simp [hx]
    exact (Reader.statement?_offers hexpr (Reader.statements_takes levels)).repeats hne
      (Reader.statement?_declinesAtEnd _ _) hc
  | names =>
    exact Reader.ident_takes.offers.nextItem.repeats hcomma (Reader.nextItem_declinesAtEnd _) hc
  | params =>
    exact Reader.param?_offers.nextItem.repeats hcomma (Reader.nextItem_declinesAtEnd _) hc
  | args =>
    exact (Reader.argument?_offers hexpr).nextItem.repeats hcomma
      (Reader.nextItem_declinesAtEnd _) hc
  | operators =>
    exact (Reader.opTerm?_offers (Reader.expr_term_take levels).2).repeats
      (fun _ => List.cons_ne_nil _ _) (Reader.opTerm?_declinesAtEnd _) hc

/-- The rounds for the tokens ahead are enough for every loop, from every depth. -/
theorem repeats (loop : Loop) (fuel : Nat) {s : Stream} (hs : s.cursor.Closed) :
    Parser.Repeats (loop.reader fuel) [] s (Parser.many (loop.reader fuel) s) := by
  have hmatches := loop.reader_matches fuel s.depth
  have hmany : Parser.many (loop.reader fuel) s = s.settle _ := hmatches.many s rfl
  rw [hmany]
  exact (loop.reader_repeats _ hs).settle hmatches rfl rfl

end Loop

end Jack
