import Jack.Proofs.Tree.Levels
import Jack.Proofs.Tree.Parsers

/-!
The parts of the grammar that can be read on their own, from any depth. How deep a stream is makes
no difference to what is read but for the limit: a part with `depth` levels in it can be read where
so many are left, and nowhere deeper.
-/

namespace Jack

inductive Part where
  | unit | classDecl | classVar | type | returnType | subroutine
  | params | someParams | param | body | var
  | block | statements | statement | assignment | branch | loop | perform | finish
  | expr | term | index | call | args
  | ident | integer | string | namedConstant | comma

namespace Part

/-- What a part is read as. Parts that need not be there are read as `none` then. -/
def Tree : Part → Type
  | unit | classDecl => ClassDecl
  | classVar => Option ClassVarDec
  | type => VarType
  | returnType => ReturnType
  | subroutine => Option Subroutine
  | params => Option (Separated Param)
  | someParams => Separated Param
  | param => Option Param
  | body => Body
  | var => Option VarDec
  | block => Block
  | statements => Stmts
  | statement => Option Stmt
  | assignment | branch | loop | perform | finish => Stmt
  | expr => Expr
  | term => Term
  | index => Index
  | call => Call
  | args => Args
  | ident => Ident
  | integer => Nat × Span
  | string => String × Span
  | namedConstant => NamedConstant × Span
  | comma => Option Span

/-- The reader of a part, for so many levels. -/
def reader {m : Type → Type} [Monad m] [Reads m] : (part : Part) → Nat → m part.Tree
  | unit => Grammar.unit
  | classDecl => Grammar.classDecl
  | classVar => fun _ => Grammar.classVar?
  | type => fun _ => Grammar.varType
  | returnType => fun _ => Grammar.returnType
  | subroutine => Grammar.subroutine?
  | params => fun _ => Grammar.params
  | someParams => fun _ => Grammar.separated Grammar.param?
  | param => fun _ => Grammar.param?
  | body => Grammar.body
  | var => fun _ => Grammar.var?
  | block => fun levels => Grammar.blockWith (Grammar.statements levels)
  | statements => Grammar.statements
  | statement => fun levels => Grammar.statement? (Grammar.expr levels) (Grammar.statements levels)
  | assignment => fun levels => Grammar.assignment (Grammar.expr levels)
  | branch => fun levels => Grammar.branch (Grammar.expr levels) (Grammar.statements levels)
  | loop => fun levels => Grammar.loop (Grammar.expr levels) (Grammar.statements levels)
  | perform => fun levels => Grammar.perform (Grammar.expr levels)
  | finish => fun levels => Grammar.finish (Grammar.expr levels)
  | expr => Grammar.expr
  | term => Grammar.term
  | index => fun levels => Grammar.indexWith (Grammar.expr levels)
  | call => fun levels => Grammar.callWith (Grammar.expr levels)
  | args => fun levels => Grammar.argsWith (Grammar.expr levels)
  | ident => fun _ => Grammar.ident
  | integer => fun _ => Grammar.integer
  | string => fun _ => Grammar.string
  | namedConstant => fun _ => Grammar.namedConstant
  | comma => fun _ => Reads.accept? (.symbol .comma)

/-- The reader that is given the levels left. -/
abbrev counted (part : Part) (levels : Nat) : Reader part.Tree := part.reader levels

/-- From every depth a part is read with the levels that are left there. -/
theorem reader_matches (part : Part) (fuel depth : Nat) :
    Parser.Matches depth (part.reader fuel) (part.counted (min fuel (maxDepth - depth))) := by
  have hexpr := Parser.expr_matches fuel depth
  have hstatements := Parser.statements_matches fuel depth
  cases part with
  | unit => exact Parser.unit_matches fuel
  | classDecl => exact Parser.classDecl_matches fuel
  | classVar => exact Parser.classVar?_matches
  | type => exact Parser.varType_matches
  | returnType => exact Parser.returnType_matches
  | subroutine => exact Parser.subroutine?_matches fuel
  | params => exact Parser.params_matches
  | someParams => exact Parser.separated_matches Parser.param?_matches
  | param => exact Parser.param?_matches
  | body => exact Parser.body_matches fuel
  | var => exact Parser.var?_matches
  | block => exact Parser.blockWith_matches hstatements
  | statements => exact hstatements
  | statement => exact Parser.statement?_matches hexpr hstatements
  | assignment => exact Parser.assignment_matches hexpr
  | branch => exact Parser.branch_matches hexpr hstatements
  | loop => exact Parser.loop_matches hexpr hstatements
  | perform => exact Parser.perform_matches hexpr
  | finish => exact Parser.finish_matches hexpr
  | expr => exact hexpr
  | term => exact (Parser.expr_term_match fuel depth).2
  | index => exact Parser.indexWith_matches hexpr
  | call => exact Parser.callWith_matches hexpr
  | args => exact Parser.argsWith_matches hexpr
  | ident => exact Parser.ident_matches
  | integer => exact Parser.integer_matches
  | string => exact Parser.string_matches
  | namedConstant => exact Parser.namedConstant_matches
  | comma => exact Parser.accept?_matches (.symbol .comma)

/-- The most expressions, terms and statement lists on one path of the tree. -/
def depth : (part : Part) → part.Tree → Nat
  | unit => ClassDecl.depth
  | classDecl => ClassDecl.depth
  | subroutine => fun found => found.elim 0 Subroutine.depth
  | body => fun b => b.statements.depth
  | block => Block.depth
  | statements => Stmts.depth
  | statement => fun found => found.elim 0 Stmt.depth
  | assignment | branch | loop | perform | finish => Stmt.depth
  | expr => Expr.depth
  | term => Term.depth
  | index => Index.depth
  | call => Call.depth
  | args => Args.depth
  | _ => fun _ => 0

theorem elim_zero_le_iff {α : Type} {found : Option α} {depth : α → Nat} {n : Nat} :
    found.elim 0 depth ≤ n ↔ ∀ a ∈ found, depth a ≤ n := by
  cases found <;> simp

/-- With more levels left, a part is read as with fewer, up to those that it needs. -/
theorem reader_deepens (part : Part) {n m : Nat} (h : n ≤ m) (c : Cursor) :
    Reader.Deepens m True (fun t => part.depth t ≤ n) (part.counted n) (part.counted m) c := by
  have hexpr := Reader.expr_deepens h
  have hstatements := Reader.statements_deepens h
  have hfree {α : Type} {r : Reader α} (hr : r.Free) :
      Reader.Deepens m True (fun _ => 0 ≤ n) r r c :=
    (hr m c).congr fun _ => iff_of_true (Nat.zero_le n) trivial
  cases part with
  | unit => exact Reader.unit_deepens h c
  | classDecl => exact Reader.classDecl_deepens h c
  | classVar => exact hfree Reader.classVar?_free
  | type => exact hfree Reader.varType_free
  | returnType => exact hfree Reader.returnType_free
  | subroutine => exact (Reader.subroutine?_deepens h c).congr fun _ => elim_zero_le_iff
  | params => exact hfree Reader.params_free
  | someParams => exact hfree Reader.param?_free.separated
  | param => exact hfree Reader.param?_free
  | body => exact Reader.body_deepens h c
  | var => exact hfree Reader.var?_free
  | block => exact Reader.blockWith_deepens hstatements c
  | statements => exact hstatements c
  | statement =>
    exact (Reader.statement?_deepens hexpr hstatements c).congr fun _ => elim_zero_le_iff
  | assignment => exact Reader.assignment_deepens hexpr c
  | branch => exact Reader.branch_deepens hexpr hstatements c
  | loop => exact Reader.loop_deepens hexpr hstatements c
  | perform => exact Reader.perform_deepens hexpr c
  | finish => exact Reader.finish_deepens hexpr c
  | expr => exact hexpr c
  | term => exact (Reader.expr_term_deepen h c).2
  | index => exact Reader.indexWith_deepens hexpr c
  | call => exact Reader.callWith_deepens hexpr c
  | args => exact Reader.argsWith_deepens hexpr c
  | ident => exact hfree Reader.ident_free
  | integer => exact hfree Reader.integer_free
  | string => exact hfree Reader.string_free
  | namedConstant => exact hfree Reader.namedConstant_free
  | comma => exact hfree (Reader.accept?_free (.symbol .comma))

end Part

/-! ### Reading from different depths -/

namespace Stream

variable {part : Part} {s s' : Stream}

/-- A part that is read with more levels than the limit allows meets the limit first. -/
theorem reader_eq_settle (s : Stream) {fuel : Nat} (h : maxDepth < fuel) :
    (part.reader fuel : Parser part.Tree) s =
      s.settle (part.counted (maxDepth - s.depth) s.cursor) := by
  have hlevels : min fuel (maxDepth - s.depth) = maxDepth - s.depth := by omega
  rw [part.reader_matches fuel s.depth s rfl, hlevels]

theorem read_eq_settle (s : Stream) :
    s.read part.reader = s.settle (part.counted (maxDepth - s.depth) s.cursor) :=
  s.reader_eq_settle (Nat.lt_succ_self maxDepth)

theorem read_eq_ok_iff {t : part.Tree} : s.read part.reader = (.ok t, s') ↔
    part.counted (maxDepth - s.depth) s.cursor = .ok (t, s'.cursor) ∧ s'.tokens = s.tokens ∧
      s'.depth = s.depth := by
  rw [read_eq_settle]
  cases h : part.counted (maxDepth - s.depth) s.cursor with
  | error halt => simp [settle]
  | ok result =>
    obtain ⟨b, c⟩ := result
    cases s'
    simp [settle, and_assoc, and_left_comm, eq_comm]

theorem read_eq_error_iff {e : SyntaxError} : s.read part.reader = (.error e, s') ↔
    ∃ opened, part.counted (maxDepth - s.depth) s.cursor = .error ⟨e, s'.cursor, opened⟩ ∧
      s'.tokens = s.tokens ∧ s'.depth = s.depth + opened := by
  rw [read_eq_settle]
  cases h : part.counted (maxDepth - s.depth) s.cursor with
  | ok result => simp [settle]
  | error halt =>
    obtain ⟨tokens', c', depth'⟩ := s'
    simp only [settle, Prod.mk.injEq, Except.error.injEq, Stream.mk.injEq]
    constructor
    · rintro ⟨rfl, rfl, rfl, rfl⟩
      exact ⟨halt.opened, rfl, rfl, rfl⟩
    · rintro ⟨opened, rfl, rfl, rfl⟩
      exact ⟨rfl, rfl, rfl, rfl⟩

/-- Nearer to the limit, a part is read as further away from it, unless the limit is exceeded. A
part that can be read further away exceeds it exactly if it has more levels than are left. -/
theorem read_depends_on_limit (part : Part) (tokens : List Token) (c : Cursor) {d d' : Nat}
    (hle : d ≤ d') (hmax : d' ≤ maxDepth) :
    (∀ t s, read ⟨tokens, c, d'⟩ part.reader = (.ok t, s) →
      s.depth = d' ∧ read ⟨tokens, c, d⟩ part.reader = (.ok t, ⟨tokens, s.cursor, d⟩)) ∧
    (∀ e s, read ⟨tokens, c, d'⟩ part.reader = (.error e, s) → ¬ e.IsNesting →
      ∃ opened, s.depth = d' + opened ∧
        read ⟨tokens, c, d⟩ part.reader = (.error e, ⟨tokens, s.cursor, d + opened⟩)) ∧
    ∀ t s, read ⟨tokens, c, d⟩ part.reader = (.ok t, s) → s.depth = d ∧
      (d' + part.depth t ≤ maxDepth →
        read ⟨tokens, c, d'⟩ part.reader = (.ok t, ⟨tokens, s.cursor, d'⟩)) ∧
      (maxDepth < d' + part.depth t →
        ∃ e s', read ⟨tokens, c, d'⟩ part.reader = (.error e, s') ∧ e.IsNesting) := by
  have hlevels : maxDepth - d' ≤ maxDepth - d := Nat.sub_le_sub_left hle maxDepth
  have hdeepens := part.reader_deepens hlevels c
  refine ⟨?_, ?_, ?_⟩
  · intro t s hread
    obtain ⟨hok, -, hdepth⟩ := read_eq_ok_iff.1 hread
    obtain heq | ⟨halt, hhalt, -⟩ := hdeepens.agrees
    · exact ⟨hdepth, read_eq_ok_iff.2 ⟨heq ▸ hok, rfl, rfl⟩⟩
    · simp [hhalt] at hok
  · intro e s hread hnesting
    obtain ⟨opened, herror, -, hdepth⟩ := read_eq_error_iff.1 hread
    obtain heq | ⟨halt, hhalt, hnested⟩ := hdeepens.agrees
    · exact ⟨opened, hdepth, read_eq_error_iff.2 ⟨opened, heq ▸ herror, rfl, rfl⟩⟩
    · obtain rfl : halt = ⟨e, s.cursor, opened⟩ := by simpa [hhalt] using herror
      exact absurd hnested hnesting
  · intro t s hread
    obtain ⟨hok, -, hdepth⟩ := read_eq_ok_iff.1 hread
    have hfits := hdeepens.fits t s.cursor hok
    refine ⟨hdepth, fun hlimit => ?_, fun hlimit => ?_⟩
    · exact read_eq_ok_iff.2 ⟨(hfits.1 (by omega)).2, rfl, rfl⟩
    · obtain heq | ⟨halt, hhalt, hnested⟩ := hdeepens.agrees
      · have hgood := hfits.2 ⟨trivial, heq.trans hok⟩
        omega
      · exact ⟨halt.error, ⟨tokens, halt.cursor, d' + halt.opened⟩,
          read_eq_error_iff.2 ⟨halt.opened, hhalt, rfl, rfl⟩, hnested⟩

/-- A name in parentheses has four levels. -/
theorem read_parens_at_limit :
    let tokens : List Token :=
      [⟨.symbol .leftParen, 0, 1⟩, ⟨.identifier, 1, 1⟩, ⟨.symbol .rightParen, 2, 1⟩]
    let c := Cursor.ofTokens "(x)" tokens
    ∃ t s, read ⟨tokens, c, 0⟩ Part.expr.reader = (.ok t, s) ∧ Part.expr.depth t = 4 ∧
      read ⟨tokens, c, 124⟩ Part.expr.reader = (.ok t, ⟨tokens, s.cursor, 124⟩) ∧
      ∃ e s', read ⟨tokens, c, 125⟩ Part.expr.reader = (.error e, s') ∧ e.IsNesting := by
  intro tokens c
  have hdepth : (read ⟨tokens, c, 0⟩ Part.expr.reader).1.toOption.map Part.expr.depth =
      some 4 := by
    decide +kernel
  cases hread : read ⟨tokens, c, 0⟩ Part.expr.reader with
  | mk result s =>
    cases result with
    | error e => simp [hread, Except.toOption] at hdepth
    | ok t =>
      have hfour : Part.expr.depth t = 4 := by simpa [hread, Except.toOption] using hdepth
      have hlimit {d' : Nat} (hmax : d' ≤ maxDepth) :=
        (read_depends_on_limit .expr tokens c (Nat.zero_le d') hmax).2.2 t s hread
      rw [hfour] at hlimit
      exact ⟨t, s, rfl, hfour, (hlimit (by decide)).2.1 (by decide),
        (hlimit (by decide)).2.2 (by decide)⟩

end Stream

end Jack
