import Jack.Proofs.Vm.Labels

/-!
Generation that stops at an error. What it has emitted by then is the front of the code that the
tree has otherwise, and the labels there have numbers that are taken.
-/

namespace Jack

theorem bind_eq_error_iff {ε α β : Type} {x : Except ε α} {f : α → Except ε β} {e : ε} :
    (x >>= f) = .error e ↔ x = .error e ∨ ∃ a, x = .ok a ∧ f a = .error e := by
  cases x <;> simp [bind, Except.bind]

/-- Behind `out`, the generation stops somewhere in the code. -/
def StopsIn (stop : Stop) (out : Output) (code : List Instr) : Prop :=
  ∃ block count, block <+: code ∧ stop.output = (out.append block).number count ∧
    ∀ l ∈ labelsOf block, l.number < out.labels + count

namespace StopsIn

variable {stop : Stop} {out : Output} {code block₁ block₂ : List Instr} {i : Instr}

theorem here (h : stop.output = out) : StopsIn stop out code :=
  ⟨[], 0, List.nil_prefix, by simp [h], by simp⟩

theorem left (h : StopsIn stop out block₁) : StopsIn stop out (block₁ ++ block₂) := by
  obtain ⟨block, count, hblock, hout, hlabels⟩ := h
  exact ⟨block, count, hblock.trans (List.prefix_append ..), hout, hlabels⟩

theorem right (count : Nat) (h : StopsIn stop ((out.append block₁).number count) block₂)
    (hlabels : ∀ l ∈ labelsOf block₁, l.number < out.labels + count) :
    StopsIn stop out (block₁ ++ block₂) := by
  obtain ⟨block, count', hblock, hout, hlabels'⟩ := h
  refine ⟨block₁ ++ block, count + count', ?_, by simp [hout], ?_⟩
  · exact (List.prefix_append_right_inj block₁).2 hblock
  · intro l hl
    rcases List.mem_append.1 (labelsOf_append block₁ block ▸ hl) with hl | hl
    · have hlt := hlabels l hl
      omega
    · have hlt := hlabels' l hl
      simp only [Output.labels_number, Output.labels_append] at hlt
      omega

/-- Code without labels may come before. -/
theorem behind (h : StopsIn stop (out.append block₁) block₂) (hlabels : labelsOf block₁ = []) :
    StopsIn stop out (block₁ ++ block₂) :=
  right 0 h (by simp [hlabels])

theorem next (h : StopsIn stop (out.append [i]) code) (hlabel : i.label? = none) :
    StopsIn stop out ([i] ++ code) :=
  behind h (by simp [hlabel])

/-- A label may come before, if its number is taken. -/
theorem place {l : Label} (h : StopsIn stop (out.append [.label l]) code)
    (hl : l.number < out.labels) : StopsIn stop out ([.label l] ++ code) :=
  right 0 h (by simpa using hl)

theorem number (count : Nat) (h : StopsIn stop (out.number count) code) :
    StopsIn stop out ([] ++ code) :=
  right count (by simpa using h) (by simp)

end StopsIn

namespace Context

variable {ctx : Context} {out : Output} {stop : Stop}

/-! ### Expressions -/

theorem resolve_stops {name : Ident} {code : List Instr} (h : ctx.resolve name out = .error stop) :
    StopsIn stop out code := by
  rw [resolve] at h
  split at h
  · simp at h
  · obtain rfl := Except.error.inj h
    exact .here rfl

theorem characters_stop {span : Span} {cs : List Char}
    (h : characters span cs out = .error stop) : StopsIn stop out (Code.characters cs) := by
  induction cs generalizing out with
  | nil => simp [characters] at h
  | cons c cs ih =>
    rw [characters] at h
    split at h
    · rw [Output.emit_eq_append, Output.emit_eq_append] at h
      exact ((ih h).next rfl).next rfl
    · obtain rfl := Except.error.inj h
      exact .here rfl

theorem string_stops {value : String} {span : Span} (h : string value span out = .error stop) :
    StopsIn stop out (Code.string value) := by
  rw [string] at h
  split at h
  · rw [Output.emit_eq_append, Output.emit_eq_append] at h
    exact ((characters_stop h).next rfl).next rfl
  · obtain rfl := Except.error.inj h
    exact .here rfl

mutual

theorem expr_stops : ∀ (e : Expr) {out : Output}, ctx.expr e out = .error stop →
    StopsIn stop out (Code.expr ctx e)
  | .mk head tail, out, h => by
    rcases bind_eq_error_iff.1 h with h | ⟨out₁, h₁, h⟩
    · exact (term_stops head h).left
    · rw [term_eq head h₁] at h
      exact (opTerms_stop tail h).behind (labelsOf_eq_nil (Code.term_straight head))

theorem opTerms_stop : ∀ (xs : OpTerms) {out : Output}, ctx.opTerms xs out = .error stop →
    StopsIn stop out (Code.opTerms ctx xs)
  | .nil, out, h => by simp [opTerms] at h
  | .cons op _ t rest, out, h => by
    rcases bind_eq_error_iff.1 h with h | ⟨out₁, h₁, h⟩
    · exact (term_stops t h).left
    · rw [term_eq t h₁, Output.emit_eq_append] at h
      have hop := (opTerms_stop rest h).next (Instr.label?_eq_none (Code.binaryOp_straight op))
      exact hop.behind (labelsOf_eq_nil (Code.term_straight t))

theorem term_stops : ∀ (t : Term) {out : Output}, ctx.term t out = .error stop →
    StopsIn stop out (Code.term ctx t)
  | .integer _ _, out, h => by simp [term] at h
  | .string value _, _, h => string_stops h
  | .named value _, out, h => by simp [term] at h
  | .paren _ e _, _, h => expr_stops e h
  | .unary op _ t, out, h => by
    rcases bind_eq_error_iff.1 h with h | ⟨out₁, h₁, h⟩
    · exact (term_stops t h).left
    · cases h
  | .var name, out, h => by
    rcases bind_eq_error_iff.1 h with h | ⟨v, h₁, h⟩
    · exact resolve_stops h
    · cases h
  | .element name index, out, h => by
    rcases bind_eq_error_iff.1 h with h | ⟨v, h₁, h⟩
    · exact resolve_stops h
    · rw [Output.emit_eq_append, ← push_of_resolve h₁] at h
      rcases bind_eq_error_iff.1 h with h | ⟨out₁, h₂, h⟩
      · exact ((offset_stops index h).left).next (Code.label?_push name)
      · cases h
  | .call c, _, h => call_stops c h

theorem offset_stops : ∀ (index : Index) {out : Output}, ctx.offset index out = .error stop →
    StopsIn stop out (Code.offset ctx index)
  | .mk _ e _, out, h => by
    rcases bind_eq_error_iff.1 h with h | ⟨out₁, h₁, h⟩
    · exact (expr_stops e h).left
    · cases h

theorem call_stops : ∀ (c : Call) {out : Output}, ctx.call c out = .error stop →
    StopsIn stop out (Code.call ctx c)
  | .mk recv name _ as _, out, h => by
    have hrecv : labelsOf (Code.receiver ctx recv).2.2 = [] :=
      labelsOf_eq_nil (Code.receiver_straight recv)
    have hargs : labelsOf (Code.args ctx as) = [] := labelsOf_eq_nil (Code.args_straight as)
    simp only [call, receiver_eq] at h
    rcases bind_eq_error_iff.1 h with h | ⟨out₁, h₁, h⟩
    · exact ((args_stop as h).behind hrecv).left
    · rw [args_eq as h₁] at h
      split at h
      · cases h
      · obtain rfl := Except.error.inj h
        exact StopsIn.behind (.here (by simp)) (by simp [hrecv, hargs])

theorem args_stop : ∀ (as : Args) {out : Output}, ctx.args as out = .error stop →
    StopsIn stop out (Code.args ctx as)
  | .none, out, h => by simp [args] at h
  | .some head tail, out, h => by
    rcases bind_eq_error_iff.1 h with h | ⟨out₁, h₁, h⟩
    · exact (expr_stops head h).left
    · rw [expr_eq head h₁] at h
      exact (moreArgs_stop tail h).behind (Code.labelsOf_expr head)

theorem moreArgs_stop : ∀ (as : MoreArgs) {out : Output}, ctx.moreArgs as out = .error stop →
    StopsIn stop out (Code.moreArgs ctx as)
  | .nil, out, h => by simp [moreArgs] at h
  | .cons _ e rest, out, h => by
    rcases bind_eq_error_iff.1 h with h | ⟨out₁, h₁, h⟩
    · exact (expr_stops e h).left
    · rw [expr_eq e h₁] at h
      exact (moreArgs_stop rest h).behind (Code.labelsOf_expr e)

end

/-! ### Statements -/

mutual

theorem stmt_stops : ∀ (s : Stmt) {out : Output}, ctx.stmt s out = .error stop →
    StopsIn stop out (Code.stmt ctx out.labels s)
  | .assign _ target none _ value _, out, h => by
    rcases bind_eq_error_iff.1 h with h | ⟨v, h₁, h⟩
    · exact resolve_stops h
    · rcases bind_eq_error_iff.1 h with h | ⟨out₁, h₂, h⟩
      · exact (expr_stops value h).left
      · cases h
  | .assign _ target (some index) _ value _, out, h => by
    rcases bind_eq_error_iff.1 h with h | ⟨v, h₁, h⟩
    · exact resolve_stops h
    · rw [Output.emit_eq_append, ← push_of_resolve h₁] at h
      rcases bind_eq_error_iff.1 h with h | ⟨out₁, h₂, h⟩
      · exact ((offset_stops index h).left).next (Code.label?_push target)
      · rw [offset_eq index h₂, Output.emit_eq_append] at h
        rcases bind_eq_error_iff.1 h with h | ⟨out₂, h₃, h⟩
        · refine StopsIn.next (StopsIn.behind ?_ (Code.labelsOf_offset index))
            (Code.label?_push target)
          exact ((expr_stops value h).left).next rfl
        · cases h
  | .branch _ _ condition _ yes no, out, h => by
    simp only [stmt, Output.nextLabel_eq, Output.emit_eq_append] at h
    refine StopsIn.number 1 ?_
    rcases bind_eq_error_iff.1 h with h | ⟨out₁, h₁, h⟩
    · exact (expr_stops condition h).left
    · rw [expr_eq condition h₁] at h
      refine StopsIn.behind (StopsIn.next ?_ rfl) (Code.labelsOf_expr condition)
      rcases bind_eq_error_iff.1 h with h | ⟨out₂, h₂, h⟩
      · exact (otherwise_stops no h).left
      · rw [otherwise_eq no h₂] at h
        refine StopsIn.right no.labelCount (StopsIn.next (StopsIn.place ?_ ?_) rfl) ?_
        · rcases bind_eq_error_iff.1 h with h | ⟨out₃, h₃, h⟩
          · exact (block_stops yes h).left
          · cases h
        · simp only [Output.labels_append, Output.labels_number]
          omega
        · exact fun l hl => ((Code.otherwise_numbered no (out.labels + 1)).2 l hl).2
  | .loop _ _ condition _ body, out, h => by
    simp only [stmt, Output.nextLabel_eq, Output.emit_eq_append] at h
    refine StopsIn.number 1 (StopsIn.place ?_ (Nat.lt_succ_self _))
    rcases bind_eq_error_iff.1 h with h | ⟨out₁, h₁, h⟩
    · exact (expr_stops condition h).left
    · rw [expr_eq condition h₁] at h
      refine StopsIn.behind ?_ (Code.labelsOf_expr condition)
      refine StopsIn.next (StopsIn.next (StopsIn.place ?_ (Nat.lt_succ_self _)) rfl) rfl
      rcases bind_eq_error_iff.1 h with h | ⟨out₂, h₂, h⟩
      · exact (block_stops body h).left
      · cases h
  | .perform _ c _, out, h => by
    rcases bind_eq_error_iff.1 h with h | ⟨out₁, h₁, h⟩
    · exact (call_stops c h).left
    · cases h
  | .finish _ none _, out, h => by simp [stmt] at h
  | .finish _ (some value) _, out, h => by
    rcases bind_eq_error_iff.1 h with h | ⟨out₁, h₁, h⟩
    · exact (expr_stops value h).left
    · cases h

theorem otherwise_stops : ∀ (no : Otherwise) {out : Output}, ctx.otherwise no out = .error stop →
    StopsIn stop out (Code.otherwise ctx out.labels no)
  | .none, out, h => by simp [otherwise] at h
  | .some _ b, _, h => block_stops b h

theorem block_stops : ∀ (b : Block) {out : Output}, ctx.block b out = .error stop →
    StopsIn stop out (Code.block ctx out.labels b)
  | .mk _ body _, _, h => stmts_stop body h

theorem stmts_stop : ∀ (body : Stmts) {out : Output}, ctx.stmts body out = .error stop →
    StopsIn stop out (Code.stmts ctx out.labels body)
  | .nil, out, h => by simp [stmts] at h
  | .cons s rest, out, h => by
    rcases bind_eq_error_iff.1 h with h | ⟨out₁, h₁, h⟩
    · exact (stmt_stops s h).left
    · rw [stmt_eq s h₁] at h
      refine (stmts_stop rest h).right s.labelCount fun l hl => ?_
      exact ((Code.stmt_numbered s out.labels).2 l hl).2

end

end Context

end Jack
