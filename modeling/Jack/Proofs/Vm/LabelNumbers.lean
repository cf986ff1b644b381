import Jack.Proofs.Vm.SubroutineRun

/-!
How many numbers the labels of a class take. Branches and loops take one each, also if the
generation stops at an error, and each of them has a keyword of its own. So there are no more
numbers than tokens.
-/

namespace Jack

open Generator (Leaves)

/-- Behind `out`, at most `n` numbers are taken, up to the end or the error. -/
def Numbers (n : Nat) (out : Output) (x : Except Stop Output) : Prop :=
  Leaves Stop.output (fun out' => out'.labels ≤ out.labels + n) x

namespace Numbers

variable {n m : Nat} {out out' : Output} {x : Except Stop Output} {f : Output → Except Stop Output}

theorem done (h : out'.labels = out.labels) : Numbers n out (.ok out') :=
  Nat.le_trans (Nat.le_of_eq h) (Nat.le_add_right ..)

theorem stopped {e : CompileError} : Numbers n out (.error ⟨e, out⟩) := Nat.le_add_right ..

theorem widen {n' : Nat} {start : Output} (h : Numbers n out x)
    (hle : out.labels + n ≤ start.labels + n') : Numbers n' start x := by
  cases x with
  | error stop => exact Nat.le_trans h hle
  | ok out' => exact Nat.le_trans h hle

theorem bind (hx : Numbers n out x) (hf : ∀ out', Numbers m out' (f out')) :
    Numbers (n + m) out (x >>= f) := by
  cases x with
  | error stop =>
    have hle : stop.output.labels ≤ out.labels + n := hx
    exact Nat.le_trans hle (by omega)
  | ok out' =>
    have hle : out'.labels ≤ out.labels + n := hx
    exact (hf out').widen (by omega)

/-- What comes first takes no numbers. -/
theorem keep (hx : Numbers 0 out x) (hf : ∀ out', Numbers m out' (f out')) :
    Numbers m out (x >>= f) := by
  have hboth := hx.bind hf
  rwa [Nat.zero_add] at hboth

end Numbers

namespace Context

variable {ctx : Context} {n : Nat} {out : Output}

/-! ### Expressions -/

theorem resolve_numbers {name : Ident} {f : Variable → Except Stop Output}
    (hf : ∀ v, Numbers n out (f v)) : Numbers n out (ctx.resolve name out >>= f) := by
  rw [resolve]
  split
  · exact hf _
  · exact .stopped

theorem characters_numbers (span : Span) (cs : List Char) (out : Output) :
    Numbers 0 out (characters span cs out) := by
  induction cs generalizing out with
  | nil => exact .done rfl
  | cons c cs ih =>
    rw [characters]
    split
    · exact ih _
    · exact .stopped

theorem string_numbers (value : String) (span : Span) (out : Output) :
    Numbers 0 out (string value span out) := by
  rw [string]
  split
  · exact characters_numbers span value.toList _
  · exact .stopped

theorem receiver_labels (ctx : Context) (recv : Option (Ident × Span)) (out : Output) :
    (ctx.receiver recv out).2.2.labels = out.labels := by
  cases recv with
  | none => rfl
  | some object =>
    rw [receiver]
    split <;> rfl

mutual

theorem expr_numbers : ∀ (e : Expr) (out : Output), Numbers 0 out (ctx.expr e out)
  | .mk head tail, out => by
    rw [expr]
    exact (term_numbers head out).keep fun out₁ => opTerms_numbers tail out₁

theorem opTerms_numbers : ∀ (xs : OpTerms) (out : Output), Numbers 0 out (ctx.opTerms xs out)
  | .nil, out => .done rfl
  | .cons op _ t rest, out => by
    rw [opTerms]
    apply (term_numbers t out).keep
    intro out₁
    exact opTerms_numbers rest (out₁.emit op.instr)

theorem term_numbers : ∀ (t : Term) (out : Output), Numbers 0 out (ctx.term t out)
  | .integer _ _, out => .done rfl
  | .string value span, out => string_numbers value span out
  | .named value _, out => by
    rw [term]
    cases value <;> exact .done rfl
  | .paren _ e _, out => expr_numbers e out
  | .unary _ _ t, out => by
    rw [term]
    apply (term_numbers t out).keep
    intro out₁
    exact .done rfl
  | .var name, out => by
    rw [term]
    apply resolve_numbers
    intro v
    exact .done rfl
  | .element name index, out => by
    rw [term]
    apply resolve_numbers
    intro v
    apply (offset_numbers index (out.emit v.push)).keep
    intro out₁
    exact .done rfl
  | .call c, out => call_numbers c out

theorem offset_numbers : ∀ (index : Index) (out : Output), Numbers 0 out (ctx.offset index out)
  | .mk _ e _, out => by
    rw [offset]
    apply (expr_numbers e out).keep
    intro out₁
    exact .done rfl

theorem call_numbers : ∀ (c : Call) (out : Output), Numbers 0 out (ctx.call c out)
  | .mk recv name left as right, out => by
    have hlabels := ctx.receiver_labels recv out
    rw [call]
    generalize ctx.receiver recv out = start at hlabels
    have hargs := (args_numbers as start.2.2).widen (Nat.le_of_eq (congrArg (· + 0) hlabels))
    apply hargs.keep
    intro out₁
    dsimp only
    split
    · exact .done rfl
    · exact .stopped

theorem args_numbers : ∀ (as : Args) (out : Output), Numbers 0 out (ctx.args as out)
  | .none, out => .done rfl
  | .some head tail, out => by
    rw [args]
    exact (expr_numbers head out).keep fun out₁ => moreArgs_numbers tail out₁

theorem moreArgs_numbers : ∀ (as : MoreArgs) (out : Output), Numbers 0 out (ctx.moreArgs as out)
  | .nil, out => .done rfl
  | .cons _ e rest, out => by
    rw [moreArgs]
    exact (expr_numbers e out).keep fun out₁ => moreArgs_numbers rest out₁

end

/-! ### Statements -/

mutual

theorem stmt_numbers : ∀ (s : Stmt) (out : Output), Numbers s.labelCount out (ctx.stmt s out)
  | .assign _ target none _ value _, out => by
    rw [stmt]
    apply resolve_numbers
    intro v
    apply (expr_numbers value out).keep
    intro out₁
    exact .done rfl
  | .assign _ target (some index) _ value _, out => by
    rw [stmt]
    apply resolve_numbers
    intro v
    apply (offset_numbers index (out.emit v.push)).keep
    intro out₁
    apply (expr_numbers value (out₁.emit (.pop .temp 0))).keep
    intro out₂
    exact .done rfl
  | .branch keyword left condition right yes no, out => by
    -- The number of the branch itself is taken before anything can fail.
    have hbehind : Numbers (no.labelCount + yes.labelCount) out.nextLabel.2
        (ctx.stmt (.branch keyword left condition right yes no) out) := by
      rw [stmt]
      apply (expr_numbers condition out.nextLabel.2).keep
      intro out₁
      apply (otherwise_numbers no (out₁.emit (.ifGoto ⟨.holds, out.labels⟩))).bind
      intro out₂
      apply (block_numbers yes ((out₂.emit (.goto ⟨.branchEnd, out.labels⟩)).emit
        (.label ⟨.holds, out.labels⟩))).bind (m := 0)
      intro out₃
      exact .done rfl
    have hnext : out.nextLabel.2.labels = out.labels + 1 := rfl
    apply hbehind.widen
    rw [Stmt.labelCount, hnext]
    omega
  | .loop keyword left condition right body, out => by
    have hbehind : Numbers body.labelCount out.nextLabel.2
        (ctx.stmt (.loop keyword left condition right body) out) := by
      rw [stmt]
      apply (expr_numbers condition (out.nextLabel.2.emit (.label ⟨.condition, out.labels⟩))).keep
      intro out₁
      apply (block_numbers body (((out₁.emit (.ifGoto ⟨.holds, out.labels⟩)).emit
        (.goto ⟨.loopEnd, out.labels⟩)).emit (.label ⟨.holds, out.labels⟩))).bind (m := 0)
      intro out₂
      exact .done rfl
    have hnext : out.nextLabel.2.labels = out.labels + 1 := rfl
    apply hbehind.widen
    rw [Stmt.labelCount, hnext]
    omega
  | .perform _ c _, out => by
    rw [stmt]
    apply (call_numbers c out).keep
    intro out₁
    exact .done rfl
  | .finish _ none _, out => .done rfl
  | .finish _ (some value) _, out => by
    rw [stmt]
    apply (expr_numbers value out).keep
    intro out₁
    exact .done rfl

theorem otherwise_numbers : ∀ (no : Otherwise) (out : Output),
    Numbers no.labelCount out (ctx.otherwise no out)
  | .none, _ => .done rfl
  | .some _ b, out => block_numbers b out

theorem block_numbers : ∀ (b : Block) (out : Output), Numbers b.labelCount out (ctx.block b out)
  | .mk _ body _, out => stmts_numbers body out

theorem stmts_numbers : ∀ (body : Stmts) (out : Output),
    Numbers body.labelCount out (ctx.stmts body out)
  | .nil, out => .done rfl
  | .cons s rest, out => by
    rw [stmts, Stmts.labelCount]
    exact (stmt_numbers s out).bind fun out₁ => stmts_numbers rest out₁

end

end Context

/-! ### Keywords of branches and loops -/

mutual

theorem Stmt.labelCount_le : ∀ s : Stmt, s.labelCount ≤ s.terminals.length
  | .assign _ _ _ _ _ _ => Nat.zero_le _
  | .branch keyword left condition right yes no => by
    have hyes := yes.labelCount_le
    have hno := no.labelCount_le
    simp only [Stmt.labelCount, Stmt.terminals, List.length_cons, List.length_append]
    omega
  | .loop keyword left condition right body => by
    have hbody := body.labelCount_le
    simp only [Stmt.labelCount, Stmt.terminals, List.length_cons, List.length_append]
    omega
  | .perform _ _ _ => Nat.zero_le _
  | .finish _ _ _ => Nat.zero_le _

theorem Otherwise.labelCount_le : ∀ no : Otherwise, no.labelCount ≤ no.terminals.length
  | .none => Nat.zero_le _
  | .some keyword b => by
    have hb := b.labelCount_le
    simp only [Otherwise.labelCount, Otherwise.terminals, List.length_cons]
    omega

theorem Block.labelCount_le : ∀ b : Block, b.labelCount ≤ b.terminals.length
  | .mk left body right => by
    have hbody := body.labelCount_le
    simp only [Block.labelCount, Block.terminals, List.length_cons, List.length_append]
    omega

theorem Stmts.labelCount_le : ∀ body : Stmts, body.labelCount ≤ body.terminals.length
  | .nil => Nat.zero_le _
  | .cons s rest => by
    have hs := s.labelCount_le
    have hrest := rest.labelCount_le
    simp only [Stmts.labelCount, Stmts.terminals, List.length_append]
    omega

end

theorem Subroutine.labelCount_le (sub : Subroutine) :
    sub.body.statements.labelCount ≤ sub.terminals.length := by
  have hbody := sub.body.statements.labelCount_le
  simp only [terminals, Body.terminals, List.length_cons, List.length_append]
  omega

/-! ### Classes -/

namespace Generator

theorem subroutine_labels_le (sub : Subroutine) (g : Generator) :
    Leaves Prod.snd (fun g' => g'.output.labels ≤ g.output.labels + sub.terminals.length)
      (subroutine sub g) := by
  have hcount := sub.labelCount_le
  rw [subroutine]
  split
  · exact Nat.le_add_right ..
  next scope hscope =>
    have hlabels : ((header sub scope).foldl Output.emit g.output).labels = g.output.labels := by
      rw [foldl_emit, Output.labels_append]
    have hnumbers : Numbers sub.terminals.length g.output (Context.stmts ⟨scope, sub.kind⟩
        sub.body.statements ((header sub scope).foldl Output.emit g.output)) :=
      (Context.stmts_numbers _ _).widen (Nat.add_le_add (Nat.le_of_eq hlabels) hcount)
    split
    next hstop => exact hnumbers.of_error hstop
    next hok => exact hnumbers.of_ok hok

theorem subroutines_labels_le (begun : Nat) (subs : List Subroutine) (g : Generator) :
    Leaves Failure.generator
      (fun g' => g'.output.labels ≤ g.output.labels + (subs.flatMap Subroutine.terminals).length)
      (subroutines begun subs g) := by
  induction subs generalizing begun g with
  | nil => exact Nat.le_refl _
  | cons sub subs ih =>
    have hsub := subroutine_labels_le sub g
    rw [subroutines, List.flatMap_cons, List.length_append]
    split
    next hg =>
      have hle := hsub.of_error hg
      exact Nat.le_trans hle (by omega)
    next g₁ hg =>
      have hle := hsub.of_ok hg
      have hrest := ih (begun + 1) g₁
      cases hresult : subroutines (begun + 1) subs g₁ with
      | ok g₂ =>
        have hle' := hrest.of_ok hresult
        exact Nat.le_trans hle' (by omega)
      | error failure =>
        have hle' := hrest.of_error hresult
        exact Nat.le_trans hle' (by omega)

/-- A class takes no more label numbers than it has terminals, with or without an error. -/
theorem compile_labels_le (decl : ClassDecl) :
    (compile decl .empty).2.output.labels ≤ decl.terminals.length := by
  have hlength : (decl.subroutines.flatMap Subroutine.terminals).length ≤
      decl.terminals.length := by
    simp only [ClassDecl.terminals, List.length_cons, List.length_append]
    omega
  have hclass : Leaves Failure.generator
      (fun g => g.output.labels ≤ (decl.subroutines.flatMap Subroutine.terminals).length)
      (classDecl decl .empty) := by
    rw [classDecl]
    split
    · exact Nat.zero_le _
    next scope hscope =>
      have hsubs := subroutines_labels_le 0 decl.subroutines { Generator.empty with scope }
      simpa [Generator.empty, Output.empty] using hsubs
  rw [compile]
  split
  next hg =>
    have hle := hclass.of_ok hg
    exact Nat.le_trans hle hlength
  next hg =>
    have hle := hclass.of_error hg
    exact Nat.le_trans hle hlength

end Generator

end Jack
