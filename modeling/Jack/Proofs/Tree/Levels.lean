import Jack.Proofs.Tree.Relocation

/-!
What a reader does with the levels that are left to it. With more of them it gives the same result,
or stops at the same error unless it was the levels that it ran out of; a tree is read exactly if it
is no deeper than there are levels. On the way the cursor only moves forward, not past an end of
source, and a reader that fails has entered no more levels than there were.
-/

namespace Jack

/-! ### Cursors further ahead -/

/-- The second cursor is behind tokens that the first one has ahead, and none of them ends the
source. -/
structure Cursor.Onward (c c₁ : Cursor) : Prop where
  source : c₁.source = c.source
  last : c₁.last = c.last
  exists_taken : ∃ taken, c.ahead = taken ++ c₁.ahead ∧ ∀ t ∈ taken, t.kind ≠ .endOfSource

namespace Cursor.Onward

variable {c c₁ c₂ : Cursor}

theorem refl : c.Onward c := ⟨rfl, rfl, [], rfl, by simp⟩

theorem trans (h : c.Onward c₁) (h₁ : c₁.Onward c₂) : c.Onward c₂ := by
  obtain ⟨taken, hahead, htaken⟩ := h.exists_taken
  obtain ⟨taken₁, hahead₁, htaken₁⟩ := h₁.exists_taken
  refine ⟨h₁.source.trans h.source, h₁.last.trans h.last, taken ++ taken₁, ?_, ?_⟩
  · rw [hahead, hahead₁, List.append_assoc]
  · exact List.forall_mem_append.2 ⟨htaken, htaken₁⟩

theorem advance : c.Onward c.advance := by
  obtain ⟨source, ahead, last⟩ := c
  cases ahead with
  | nil => exact .refl
  | cons t ts =>
    by_cases h : t.kind = .endOfSource
    · simpa [Cursor.advance, h] using Onward.refl
    · simp only [Cursor.advance, h, if_false]
      exact ⟨rfl, rfl, [t], rfl, by simpa using h⟩

end Cursor.Onward

def SyntaxError.IsNesting (e : SyntaxError) : Prop := ∃ found, e = .nesting found

/-! ### Readers with more levels -/

namespace Reader

variable {α β : Type}

theorem nested_eq_ok_iff {r : Reader α} {c : Cursor} {result : α × Cursor} :
    nested r c = .ok result ↔ r c = .ok result := by
  cases h : r c <;> simp [nested, h]

theorem nested_eq_error_iff {r : Reader α} {c : Cursor} {halt : Halt} :
    nested r c = .error halt ↔
      ∃ inner, r c = .error inner ∧ { inner with opened := inner.opened + 1 } = halt := by
  cases h : r c <;> simp [nested, h]

/-- With `levels` levels the second reader does what the first one does with fewer. `good` says
which results need no more than those, and `fit` that what was read before needed no more. -/
structure Deepens (levels : Nat) (fit : Prop) (good : α → Prop) (r r' : Reader α) (c : Cursor) :
    Prop where
  onward : Gives r' c fun _ c₁ => c.Onward c₁
  halts : ∀ halt, r' c = .error halt → c.Onward halt.cursor ∧ halt.opened ≤ levels
  agrees : r c = r' c ∨ ∃ halt, r c = .error halt ∧ halt.error.IsNesting
  fits : ∀ a c₁, r' c = .ok (a, c₁) → (good a ↔ fit ∧ r c = .ok (a, c₁))

/-- A reader that enters no levels. -/
abbrev Free (r : Reader α) : Prop :=
  ∀ levels c, Deepens levels True (fun _ => True) r r c

variable {levels : Nat} {fit : Prop} {p : α → Prop} {good : β → Prop} {c : Cursor}

namespace Deepens

theorem same {r : Reader α} (hok : Gives r c fun _ c₁ => c.Onward c₁)
    (herror : ∀ halt, r c = .error halt → c.Onward halt.cursor ∧ halt.opened = 0) :
    Deepens levels True (fun _ => True) r r c where
  onward := hok
  halts halt h := by
    obtain ⟨hcursor, hopened⟩ := herror halt h
    exact ⟨hcursor, by omega⟩
  agrees := .inl rfl
  fits a c₁ h := by simp [h]

theorem congr {good' : β → Prop} {r r' : Reader β} (h : Deepens levels fit good r r' c)
    (hgood : ∀ b, good' b ↔ good b) : Deepens levels fit good' r r' c where
  onward := h.onward
  halts := h.halts
  agrees := h.agrees
  fits b c₁ hb := (hgood b).trans (h.fits b c₁ hb)

theorem pure {b : β} (h : good b ↔ fit) : Deepens levels fit good (pure b) (pure b) c where
  onward := .pure .refl
  halts halt h := by simp at h
  agrees := .inl rfl
  fits b' c₁ hb := by
    obtain ⟨rfl, rfl⟩ : b = b' ∧ c = c₁ := by simpa using hb
    simp [h]

theorem fail {error : Token → SyntaxError} :
    Deepens levels fit good (Reader.fail error) (Reader.fail error) c where
  onward := .fail
  halts halt h := by
    obtain rfl : (⟨error c.current, c, 0⟩ : Halt) = halt := by simpa [Reader.fail] using h
    exact ⟨.refl, Nat.zero_le levels⟩
  agrees := .inl rfl
  fits a c₁ h := by simp [Reader.fail] at h

theorem unexpected {hint : String} :
    Deepens levels fit good (Reader.unexpected hint) (Reader.unexpected hint) c := by
  rw [unexpected_eq]
  exact fail

theorem bind {x x' : Reader α} {g g' : α → Reader β} (hx : Deepens levels True p x x' c)
    (hg : ∀ a c₁, Deepens levels (fit ∧ p a) good (g a) (g' a) c₁) :
    Deepens levels fit good (x >>= g) (x' >>= g') c where
  onward := hx.onward.bind fun a c₁ h₁ => (hg a c₁).onward.mono fun b c₂ h₂ => h₁.trans h₂
  halts halt h := by
    rw [bind_apply] at h
    cases hx' : x' c with
    | error halt' =>
      obtain rfl : halt' = halt := by simpa [hx'] using h
      exact hx.halts _ hx'
    | ok result =>
      obtain ⟨a, c₁⟩ := result
      rw [hx'] at h
      obtain ⟨hcursor, hopened⟩ := (hg a c₁).halts halt h
      exact ⟨(hx.onward a c₁ hx').trans hcursor, hopened⟩
  agrees := by
    rw [bind_apply, bind_apply]
    obtain heq | ⟨halt, hhalt, hnesting⟩ := hx.agrees
    · rw [heq]
      cases x' c with
      | error halt => exact .inl rfl
      | ok result => exact (hg result.1 result.2).agrees
    · exact .inr ⟨halt, by rw [hhalt], hnesting⟩
  fits b c₂ h := by
    rw [bind_apply] at h ⊢
    cases hx' : x' c with
    | error halt => simp [hx'] at h
    | ok result =>
      obtain ⟨a, c₁⟩ := result
      rw [hx'] at h
      rw [(hg a c₁).fits b c₂ h, and_assoc, hx.fits a c₁ hx', true_and]
      -- If the first reader gets past `x` at all, it gets there as the second one does.
      obtain heq | ⟨halt, hhalt, -⟩ := hx.agrees
      · simp [heq, hx']
      · simp [hhalt]

/-- The first part enters no levels. -/
theorem bindFree {x : Reader α} {g g' : α → Reader β} (hx : Free x)
    (hg : ∀ a c₁, Deepens levels fit good (g a) (g' a) c₁) :
    Deepens levels fit good (x >>= g) (x >>= g') c :=
  (hx levels c).bind fun a c₁ => by simpa using hg a c₁

theorem map {x x' : Reader α} {f : α → β} (hx : Deepens levels True p x x' c)
    (h : ∀ a, good (f a) ↔ p a) : Deepens levels True good (f <$> x) (f <$> x') c := by
  rw [map_eq_pure_bind, map_eq_pure_bind]
  exact hx.bind fun a c₁ => .pure (by simpa using h a)

theorem bindIte {q : Prop} [Decidable q] {x x' y y' : Reader α} {g g' : α → Reader β}
    (hx : Deepens levels True p x x' c) (hy : Deepens levels True p y y' c)
    (hg : ∀ a c₁, Deepens levels (fit ∧ p a) good (g a) (g' a) c₁) :
    Deepens levels fit good (if q then x >>= g else y >>= g) (if q then x' >>= g' else y' >>= g')
      c := by
  split
  · exact hx.bind hg
  · exact hy.bind hg

theorem bindCurrent {g g' : Token → Reader β}
    (h : Deepens levels fit good (g c.current) (g' c.current) c) :
    Deepens levels fit good (current >>= g) (current >>= g') c :=
  ⟨h.onward, h.halts, h.agrees, h.fits⟩

theorem bindGet {g g' : Cursor → Reader β} (h : Deepens levels fit good (g c) (g' c) c) :
    Deepens levels fit good (get >>= g) (get >>= g') c :=
  ⟨h.onward, h.halts, h.agrees, h.fits⟩

theorem nested {r r' : Reader β} (h : Deepens levels fit good r r' c) :
    Deepens (levels + 1) fit good (Reader.nested r) (Reader.nested r') c where
  onward b c₁ hb := h.onward b c₁ (nested_eq_ok_iff.1 hb)
  halts halt hhalt := by
    obtain ⟨inner, hinner, rfl⟩ := nested_eq_error_iff.1 hhalt
    obtain ⟨hcursor, hopened⟩ := h.halts inner hinner
    exact ⟨hcursor, Nat.succ_le_succ hopened⟩
  agrees := by
    obtain heq | ⟨halt, hhalt, hnesting⟩ := h.agrees
    · exact .inl (by rw [Reader.nested, Reader.nested, heq])
    · exact .inr ⟨_, nested_eq_error_iff.2 ⟨halt, hhalt, rfl⟩, hnesting⟩
  fits b c₁ hb := by rw [nested_eq_ok_iff, h.fits b c₁ (nested_eq_ok_iff.1 hb)]

/-- Without any level left, nothing is read that needs one. -/
theorem tooDeep {r r' : Reader β} {good' : β → Prop} (h : Deepens levels True good r r' c)
    (hgood : ∀ b, ¬ good' b) : Deepens levels fit good' Reader.tooDeep r' c where
  onward := h.onward
  halts := h.halts
  agrees := .inr ⟨_, rfl, _, rfl⟩
  fits b c₁ _ := by simp [hgood b, tooDeep_eq, Reader.fail]

end Deepens

/-! ### Single tokens -/

theorem take_free : Free take := by
  intro levels c
  refine .same ?_ ?_
  · intro span c₁ h
    obtain ⟨-, rfl⟩ : _ ∧ c.advance = c₁ := by simpa [take] using h
    exact .advance
  · intro halt h
    simp [take] at h

theorem accept?_free (kind : Kind) : Free (accept? kind) := by
  intro levels c
  refine .same (Gives.accept?.mono fun found c₁ h => ?_) fun halt h => ?_
  · cases found with
    | none => exact h.2 ▸ .refl
    | some span => exact h.2 ▸ .advance
  · by_cases hkind : c.current.kind = kind <;> simp [accept?, Cursor.accept?, hkind] at h

theorem expect_free (kind : Kind) : Free (expect kind) := by
  intro levels c
  refine .same (Gives.expect.mono fun span c₁ h => h.2 ▸ .advance) fun halt h => ?_
  by_cases hkind : c.current.kind = kind <;> simp [expect, Cursor.accept?, hkind] at h
  subst h
  exact ⟨.refl, rfl⟩

theorem textOf_free (token : Token) : Free (textOf token) := by
  intro levels c
  refine .same (Gives.textOf.mono fun text c₁ h => h.2 ▸ .refl) fun halt h => ?_
  cases htext : token.text? c.source <;> simp [textOf, htext] at h
  subst h
  exact ⟨.refl, rfl⟩

/-! ### Repetition -/

section

variable {item item' : Reader (Option α)}
  (hitem : ∀ c, Deepens levels True (fun found => ∀ a ∈ found, p a) item item' c)

include hitem

theorem manyFrom_deepens (rounds : List Token) (seen : List α) (c : Cursor) :
    Deepens levels (∀ a ∈ seen, p a) (fun as => ∀ a ∈ as, p a) (manyFrom item seen rounds)
      (manyFrom item' seen rounds) c := by
  induction rounds generalizing seen c with
  | nil => exact Deepens.pure (by simp)
  | cons round rounds ih =>
    rw [manyFrom_cons, manyFrom_cons]
    apply (hitem c).bind
    intro found c₁
    cases found with
    | none => exact .pure (by simp)
    | some a => simpa [and_comm] using ih (a :: seen) c₁

theorem many_deepens (c : Cursor) :
    Deepens levels True (fun as => ∀ a ∈ as, p a) (many item) (many item') c := by
  have h := manyFrom_deepens hitem c.ahead [] c
  simp only [List.not_mem_nil, false_imp_iff, implies_true] at h
  exact ⟨h.onward, h.halts, h.agrees, h.fits⟩

theorem nextItem_deepens (c : Cursor) :
    Deepens levels True (fun found => ∀ x ∈ found, p x.2) (nextItem item) (nextItem item') c := by
  apply Deepens.bindFree (accept?_free (.symbol .comma))
  intro comma c₁
  cases comma with
  | none => exact .pure (by simp)
  | some comma =>
    apply (hitem c₁).bind
    intro found c₂
    cases found with
    | none => exact .unexpected
    | some a => exact .pure (by simp)

theorem separated?_deepens (c : Cursor) :
    Deepens levels True (fun found => ∀ xs ∈ found, ∀ a ∈ xs.toList, p a) (separated? item)
      (separated? item') c := by
  apply (hitem c).bind
  intro found c₁
  cases found with
  | none => exact .pure (by simp)
  | some head =>
    apply (many_deepens (nextItem_deepens hitem) c₁).bind
    intro tail c₂
    refine .pure ?_
    simp only [Option.mem_some_iff, forall_eq', Separated.toList, List.forall_mem_cons,
      List.forall_mem_map, true_and]

theorem separated_deepens (c : Cursor) :
    Deepens levels True (fun xs => ∀ a ∈ xs.toList, p a) (separated item) (separated item') c := by
  apply (separated?_deepens hitem c).bind
  intro found c₁
  cases found with
  | none => exact .unexpected
  | some items => exact .pure (by simp)

end

namespace Free

variable {item : Reader (Option α)}

theorem deepens (h : Free item) (c : Cursor) :
    Deepens levels True (fun found => ∀ a ∈ found, True) item item c := by
  simpa using h levels c

theorem many (h : Free item) : Free (many item) := by
  intro levels c
  have hmany : Deepens levels True (fun as => ∀ a ∈ as, True) (Reader.many item) _ c :=
    many_deepens h.deepens c
  simpa using hmany

theorem separated? (h : Free item) : Free (separated? item) := by
  intro levels c
  have hitems : Deepens levels True (fun found => ∀ xs ∈ found, ∀ a ∈ xs.toList, True)
      (Reader.separated? item) _ c := separated?_deepens h.deepens c
  simpa using hitems

theorem separated (h : Free item) : Free (separated item) := by
  intro levels c
  have hitems : Deepens levels True (fun xs => ∀ a ∈ xs.toList, True) (Reader.separated item) _ c :=
    separated_deepens h.deepens c
  simpa using hitems

end Free

/-! ### Names, constants and types -/

theorem ident_free : Free ident := by
  intro levels c
  apply Deepens.bindFree (expect_free .identifier)
  intro span c₁
  exact .bindFree (textOf_free _) fun text c₂ => .pure Iff.rfl

theorem integer_free : Free integer := by
  intro levels c
  apply Deepens.bindFree (expect_free .integer)
  intro span c₁
  apply Deepens.bindFree (textOf_free _)
  intro text c₂
  cases wordValue? text with
  | none => exact .fail
  | some value => exact .pure Iff.rfl

theorem string_free : Free string := by
  intro levels c
  apply Deepens.bindFree (expect_free .string)
  intro span c₁
  exact .bindFree (textOf_free _) fun text c₂ => .pure Iff.rfl

theorem namedConstant_free : Free namedConstant := by
  intro levels c
  apply Deepens.bindCurrent
  cases NamedConstant.ofKind? c.current.kind with
  | none => exact .unexpected
  | some value => exact .bindFree take_free fun span c₁ => .pure Iff.rfl

theorem varType_free : Free varType := by
  intro levels c
  apply Deepens.bindCurrent
  split
  · exact .bindFree ident_free fun name c₁ => .pure Iff.rfl
  · rename_i word _
    cases Primitive.ofKeyword? word with
    | none => exact .unexpected
    | some type => exact .bindFree take_free fun span c₁ => .pure Iff.rfl
  · exact .unexpected

theorem returnType_free : Free returnType := by
  intro levels c
  apply Deepens.bindFree (accept?_free (.keyword .kwVoid))
  intro found c₁
  cases found with
  | some span => exact .pure Iff.rfl
  | none => exact .bindFree varType_free fun type c₂ => .pure Iff.rfl

/-! ### Expressions -/

section

variable {n m : Nat} {expr expr' : Reader Expr} {term term' : Reader Term}
  (hexpr : ∀ c, Deepens m True (fun e => e.depth ≤ n) expr expr' c)
  (hterm : ∀ c, Deepens m True (fun t => t.depth ≤ n) term term' c)

include hterm in
theorem opTerm?_deepens (c : Cursor) :
    Deepens m True (fun found => ∀ x ∈ found, x.2.2.depth ≤ n) (opTerm? term) (opTerm? term')
      c := by
  apply Deepens.bindCurrent
  cases BinaryOp.ofKind? c.current.kind with
  | none => exact .pure (by simp)
  | some op =>
    apply Deepens.bindFree take_free
    intro span c₁
    exact (hterm c₁).bind fun t c₂ => .pure (by simp)

include hterm in
theorem exprWith_deepens (c : Cursor) :
    Deepens m True (fun e => e.depth ≤ n + 1) (exprWith term) (exprWith term') c := by
  apply (hterm c).bind
  intro head c₁
  apply (many_deepens (opTerm?_deepens hterm) c₁).bind
  intro tail c₂
  refine .pure ?_
  rw [Expr.depth, Nat.add_le_add_iff_right, Nat.max_le, OpTerms.depth_ofList_le, true_and]

include hexpr in
theorem argument?_deepens (c : Cursor) :
    Deepens m True (fun found => ∀ e ∈ found, e.depth ≤ n) (argument? expr) (argument? expr')
      c := by
  apply Deepens.bindCurrent
  split
  · exact .pure (by simp)
  · exact (hexpr c).bind fun e c₁ => .pure (by simp)

include hexpr in
theorem argsWith_deepens (c : Cursor) :
    Deepens m True (fun args => args.depth ≤ n) (argsWith expr) (argsWith expr') c := by
  apply (separated?_deepens (argument?_deepens hexpr) c).bind
  intro items c₁
  cases items with
  | none => exact .pure (by simp [Args.ofSeparated, Args.depth])
  | some items => exact .pure (by simp [Args.depth_ofSeparated_le])

theorem receiver?_free : Free receiver? := by
  intro levels c
  apply Deepens.bindGet
  split
  · apply Deepens.bindFree ident_free
    intro name c₁
    exact .bindFree (expect_free (.symbol .dot)) fun dot c₂ => .pure Iff.rfl
  · exact .pure Iff.rfl

include hexpr in
theorem callWith_deepens (c : Cursor) :
    Deepens m True (fun call => call.depth ≤ n) (callWith expr) (callWith expr') c := by
  apply Deepens.bindFree receiver?_free
  intro receiver c₁
  apply Deepens.bindFree ident_free
  intro name c₂
  apply Deepens.bindFree (expect_free (.symbol .leftParen))
  intro left c₃
  apply (argsWith_deepens hexpr c₃).bind
  intro args c₄
  apply Deepens.bindFree (expect_free (.symbol .rightParen))
  intro right c₅
  exact .pure (by simp [Call.depth])

include hexpr in
theorem indexWith_deepens (c : Cursor) :
    Deepens m True (fun index => index.depth ≤ n) (indexWith expr) (indexWith expr') c := by
  apply Deepens.bindFree (expect_free (.symbol .leftBracket))
  intro left c₁
  apply (hexpr c₁).bind
  intro e c₂
  apply Deepens.bindFree (expect_free (.symbol .rightBracket))
  intro right c₃
  exact .pure (by simp [Index.depth])

include hexpr in
theorem nameTerm_deepens (c : Cursor) :
    Deepens m True (fun t => t.depth ≤ n + 1) (nameTerm expr) (nameTerm expr') c := by
  apply Deepens.bindGet
  split
  · exact (callWith_deepens hexpr c).bind fun call c₁ => .pure (by simp [Term.depth])
  · exact (callWith_deepens hexpr c).bind fun call c₁ => .pure (by simp [Term.depth])
  · apply Deepens.bindFree ident_free
    intro name c₁
    exact (indexWith_deepens hexpr c₁).bind fun index c₂ => .pure (by simp [Term.depth])
  · exact .bindFree ident_free fun name c₁ => .pure (by simp [Term.depth])

include hexpr in
theorem parenTerm_deepens (c : Cursor) :
    Deepens m True (fun t => t.depth ≤ n + 1) (parenTerm expr) (parenTerm expr') c := by
  apply Deepens.bindFree take_free
  intro left c₁
  apply (hexpr c₁).bind
  intro e c₂
  apply Deepens.bindFree (expect_free (.symbol .rightParen))
  intro right c₃
  exact .pure (by simp [Term.depth])

include hterm in
theorem unaryTerm_deepens (op : UnaryOp) (c : Cursor) :
    Deepens m True (fun t => t.depth ≤ n + 1) (unaryTerm term op) (unaryTerm term' op) c := by
  apply Deepens.bindFree take_free
  intro span c₁
  exact (hterm c₁).bind fun t c₂ => .pure (by simp [Term.depth])

theorem constantTerm_deepens (k : Keyword) (c : Cursor) :
    Deepens m True (fun t => t.depth ≤ n + 1) (constantTerm k) (constantTerm k) c := by
  unfold constantTerm Grammar.constantTerm
  cases NamedConstant.ofKind? (.keyword k) with
  | none => exact .unexpected
  | some value => exact .bindFree take_free fun span c₁ => .pure (by simp [Term.depth])

include hexpr hterm in
theorem termWith_deepens (c : Cursor) :
    Deepens m True (fun t => t.depth ≤ n + 1) (termWith expr term) (termWith expr' term') c := by
  apply Deepens.bindCurrent
  split
  · exact .bindFree integer_free fun value c₁ => .pure (by simp [Term.depth])
  · exact .bindFree string_free fun value c₁ => .pure (by simp [Term.depth])
  · exact constantTerm_deepens _ c
  · exact parenTerm_deepens hexpr c
  · exact unaryTerm_deepens hterm .neg c
  · exact unaryTerm_deepens hterm .not c
  · exact nameTerm_deepens hexpr c
  · exact .unexpected

end

theorem Expr.depth_pos (e : Expr) : 0 < e.depth := by
  cases e with
  | mk head tail => exact Nat.succ_pos _

theorem Term.depth_pos (t : Term) : 0 < t.depth := by
  cases t <;> exact Nat.succ_pos _

/-- Both readers count their levels down, and the first has none left no later than the second. -/
theorem expr_term_deepen {n m : Nat} (h : n ≤ m) (c : Cursor) :
    Deepens m True (fun e => e.depth ≤ n) (expr n) (expr m) c ∧
      Deepens m True (fun t => t.depth ≤ n) (term n) (term m) c := by
  induction m generalizing n c with
  | zero =>
    obtain rfl := Nat.le_zero.1 h
    exact ⟨.fail, .fail⟩
  | succ m ih =>
    have hstep {k : Nat} (hk : k ≤ m) :
        Deepens (m + 1) True (fun e => e.depth ≤ k + 1) (expr (k + 1)) (expr (m + 1)) c ∧
          Deepens (m + 1) True (fun t => t.depth ≤ k + 1) (term (k + 1)) (term (m + 1)) c := by
      have hexpr (c : Cursor) := (ih hk c).1
      have hterm (c : Cursor) := (ih hk c).2
      exact ⟨.nested (exprWith_deepens hterm c), .nested (termWith_deepens hexpr hterm c)⟩
    cases n with
    | zero =>
      -- The first reader stops at once. What the second can do does not depend on it.
      obtain ⟨hexpr, hterm⟩ := hstep (Nat.le_refl m)
      exact ⟨hexpr.tooDeep fun e => Nat.not_le.2 (Expr.depth_pos e),
        hterm.tooDeep fun t => Nat.not_le.2 (Term.depth_pos t)⟩
    | succ k => exact hstep (Nat.le_of_succ_le_succ h)

theorem expr_deepens {n m : Nat} (h : n ≤ m) (c : Cursor) :
    Deepens m True (fun e => e.depth ≤ n) (expr n) (expr m) c := (expr_term_deepen h c).1

/-! ### Statements -/

section

variable {n m : Nat} {expr expr' : Reader Expr} {statements statements' : Reader Stmts}
  (hexpr : ∀ c, Deepens m True (fun e => e.depth ≤ n) expr expr' c)
  (hstatements : ∀ c, Deepens m True (fun body => body.depth ≤ n) statements statements' c)

include hexpr in
theorem assignment_deepens (c : Cursor) :
    Deepens m True (fun s => s.depth ≤ n) (assignment expr) (assignment expr') c := by
  apply Deepens.bindFree (expect_free (.keyword .kwLet))
  intro keyword c₁
  apply Deepens.bindFree ident_free
  intro name c₂
  apply Deepens.bindCurrent
  have hindex : Deepens m True (fun found => ∀ i ∈ found, i.depth ≤ n) (some <$> indexWith expr)
      (some <$> indexWith expr') c₂ := (indexWith_deepens hexpr c₂).map (by simp)
  apply hindex.bindIte (.pure (by simp))
  intro index c₃
  apply Deepens.bindFree (expect_free (.symbol .equal))
  intro equal c₄
  apply (hexpr c₄).bind
  intro value c₅
  apply Deepens.bindFree (expect_free (.symbol .semicolon))
  intro semicolon c₆
  cases index with
  | none => exact .pure (by simp [Stmt.depth])
  | some index =>
    refine .pure ?_
    simp only [Stmt.depth, Nat.max_le, Option.mem_some_iff, forall_eq', true_and]

include hstatements in
theorem blockWith_deepens (c : Cursor) :
    Deepens m True (fun b => b.depth ≤ n) (blockWith statements) (blockWith statements') c := by
  apply Deepens.bindFree (expect_free (.symbol .leftBrace))
  intro left c₁
  apply (hstatements c₁).bind
  intro body c₂
  apply Deepens.bindFree (expect_free (.symbol .rightBrace))
  intro right c₃
  exact .pure (by simp [Block.depth, Stmts.depth])

include hstatements in
theorem otherwise_deepens (c : Cursor) :
    Deepens m True (fun no => no.depth ≤ n) (otherwise statements) (otherwise statements') c := by
  apply Deepens.bindFree (accept?_free (.keyword .kwElse))
  intro found c₁
  cases found with
  | none => exact .pure (by simp [Otherwise.depth])
  | some keyword =>
    exact (blockWith_deepens hstatements c₁).bind fun b c₂ => .pure (by simp [Otherwise.depth])

include hexpr hstatements in
theorem branch_deepens (c : Cursor) :
    Deepens m True (fun s => s.depth ≤ n) (branch expr statements) (branch expr' statements')
      c := by
  apply Deepens.bindFree (expect_free (.keyword .kwIf))
  intro keyword c₁
  apply Deepens.bindFree (expect_free (.symbol .leftParen))
  intro left c₂
  apply (hexpr c₂).bind
  intro condition c₃
  apply Deepens.bindFree (expect_free (.symbol .rightParen))
  intro right c₄
  apply (blockWith_deepens hstatements c₄).bind
  intro yes c₅
  apply (otherwise_deepens hstatements c₅).bind
  intro no c₆
  refine .pure ?_
  simp only [Stmt.depth, Nat.max_le, true_and, and_assoc]

include hexpr hstatements in
theorem loop_deepens (c : Cursor) :
    Deepens m True (fun s => s.depth ≤ n) (loop expr statements) (loop expr' statements') c := by
  apply Deepens.bindFree (expect_free (.keyword .kwWhile))
  intro keyword c₁
  apply Deepens.bindFree (expect_free (.symbol .leftParen))
  intro left c₂
  apply (hexpr c₂).bind
  intro condition c₃
  apply Deepens.bindFree (expect_free (.symbol .rightParen))
  intro right c₄
  apply (blockWith_deepens hstatements c₄).bind
  intro body c₅
  refine .pure ?_
  simp only [Stmt.depth, Nat.max_le, true_and]

include hexpr in
theorem perform_deepens (c : Cursor) :
    Deepens m True (fun s => s.depth ≤ n) (perform expr) (perform expr') c := by
  apply Deepens.bindFree (expect_free (.keyword .kwDo))
  intro keyword c₁
  apply (callWith_deepens hexpr c₁).bind
  intro call c₂
  apply Deepens.bindFree (expect_free (.symbol .semicolon))
  intro semicolon c₃
  exact .pure (by simp [Stmt.depth])

include hexpr in
theorem finish_deepens (c : Cursor) :
    Deepens m True (fun s => s.depth ≤ n) (finish expr) (finish expr') c := by
  apply Deepens.bindFree (expect_free (.keyword .kwReturn))
  intro keyword c₁
  apply Deepens.bindCurrent
  have hvalue : Deepens m True (fun found => ∀ e ∈ found, e.depth ≤ n) (some <$> expr)
      (some <$> expr') c₁ := (hexpr c₁).map (by simp)
  apply Deepens.bindIte (.pure (by simp)) hvalue
  intro value c₂
  apply Deepens.bindFree (expect_free (.symbol .semicolon))
  intro semicolon c₃
  cases value <;> exact .pure (by simp [Stmt.depth])

include hexpr hstatements in
theorem statement?_deepens (c : Cursor) :
    Deepens m True (fun found => ∀ s ∈ found, s.depth ≤ n) (statement? expr statements)
      (statement? expr' statements') c := by
  apply Deepens.bindCurrent
  split
  · exact (assignment_deepens hexpr c).map (by simp)
  · exact (branch_deepens hexpr hstatements c).map (by simp)
  · exact (loop_deepens hexpr hstatements c).map (by simp)
  · exact (perform_deepens hexpr c).map (by simp)
  · exact (finish_deepens hexpr c).map (by simp)
  · exact .pure (by simp)

include hexpr hstatements in
theorem statementsWith_deepens (c : Cursor) :
    Deepens m True (fun body => body.depth ≤ n + 1) (statementsWith expr statements)
      (statementsWith expr' statements') c := by
  apply (many_deepens (statement?_deepens hexpr hstatements) c).bind
  intro stmts c₁
  exact .pure (by simp [Stmts.depth, Stmts.innerDepth_ofList_le])

end

theorem statements_deepens {n m : Nat} (h : n ≤ m) (c : Cursor) :
    Deepens m True (fun body => body.depth ≤ n) (statements n) (statements m) c := by
  induction m generalizing n c with
  | zero =>
    obtain rfl := Nat.le_zero.1 h
    exact .fail
  | succ m ih =>
    have hstep {k : Nat} (hk : k ≤ m) : Deepens (m + 1) True (fun body => body.depth ≤ k + 1)
        (statements (k + 1)) (statements (m + 1)) c :=
      .nested (statementsWith_deepens (expr_deepens hk) (ih hk) c)
    cases n with
    | zero => exact (hstep (Nat.le_refl m)).tooDeep fun body => Nat.not_succ_le_zero body.innerDepth
    | succ k => exact hstep (Nat.le_of_succ_le_succ h)

/-! ### Declarations -/

theorem names_free : Free names := by
  have hident : Free (some <$> ident) := fun levels c => (ident_free levels c).map fun _ => Iff.rfl
  exact hident.separated

theorem classVar?_free : Free classVar? := by
  intro levels c
  apply Deepens.bindCurrent
  cases ClassVarKind.ofKind? c.current.kind with
  | none => exact .pure Iff.rfl
  | some kind =>
    apply Deepens.bindFree take_free
    intro keyword c₁
    apply Deepens.bindFree varType_free
    intro type c₂
    apply Deepens.bindFree names_free
    intro names c₃
    exact .bindFree (expect_free (.symbol .semicolon)) fun semicolon c₄ => .pure Iff.rfl

theorem var?_free : Free var? := by
  intro levels c
  apply Deepens.bindFree (accept?_free (.keyword .kwVar))
  intro found c₁
  cases found with
  | none => exact .pure Iff.rfl
  | some keyword =>
    apply Deepens.bindFree varType_free
    intro type c₂
    apply Deepens.bindFree names_free
    intro names c₃
    exact .bindFree (expect_free (.symbol .semicolon)) fun semicolon c₄ => .pure Iff.rfl

theorem param?_free : Free param? := by
  intro levels c
  apply Deepens.bindCurrent
  split
  · apply Deepens.bindFree varType_free
    intro type c₁
    exact .bindFree ident_free fun name c₂ => .pure Iff.rfl
  · exact .pure Iff.rfl

theorem params_free : Free params := param?_free.separated?

theorem body_deepens {n m : Nat} (h : n ≤ m) (c : Cursor) :
    Deepens m True (fun b => b.statements.depth ≤ n) (body n) (body m) c := by
  apply Deepens.bindFree (expect_free (.symbol .leftBrace))
  intro left c₁
  apply Deepens.bindFree var?_free.many
  intro vars c₂
  apply (statements_deepens h c₂).bind
  intro statements c₃
  apply Deepens.bindFree (expect_free (.symbol .rightBrace))
  intro right c₄
  exact .pure (by simp)

theorem subroutine?_deepens {n m : Nat} (h : n ≤ m) (c : Cursor) :
    Deepens m True (fun found => ∀ sub ∈ found, sub.depth ≤ n) (subroutine? n) (subroutine? m)
      c := by
  apply Deepens.bindCurrent
  cases SubroutineKind.ofKind? c.current.kind with
  | none => exact .pure (by simp)
  | some kind =>
    apply Deepens.bindFree take_free
    intro keyword c₁
    apply Deepens.bindFree returnType_free
    intro returns c₂
    apply Deepens.bindFree ident_free
    intro name c₃
    apply Deepens.bindFree (expect_free (.symbol .leftParen))
    intro left c₄
    apply Deepens.bindFree params_free
    intro params c₅
    apply Deepens.bindFree (expect_free (.symbol .rightParen))
    intro right c₆
    exact (body_deepens h c₆).bind fun b c₇ => .pure (by simp [Subroutine.depth])

theorem classDecl_deepens {n m : Nat} (h : n ≤ m) (c : Cursor) :
    Deepens m True (fun decl => decl.depth ≤ n) (classDecl n) (classDecl m) c := by
  apply Deepens.bindFree (expect_free (.keyword .kwClass))
  intro keyword c₁
  apply Deepens.bindFree ident_free
  intro name c₂
  apply Deepens.bindFree (expect_free (.symbol .leftBrace))
  intro left c₃
  apply Deepens.bindFree classVar?_free.many
  intro vars c₄
  apply (many_deepens (subroutine?_deepens h) c₄).bind
  intro subroutines c₅
  apply Deepens.bindFree (expect_free (.symbol .rightBrace))
  intro right c₆
  exact .pure (by rw [ClassDecl.depth_le, true_and])

theorem unit_deepens {n m : Nat} (h : n ≤ m) (c : Cursor) :
    Deepens m True (fun decl => decl.depth ≤ n) (unit n) (unit m) c := by
  apply (classDecl_deepens h c).bind
  intro decl c₁
  exact .bindFree (expect_free .endOfSource) fun _ c₂ => .pure (by simp)

end Reader

end Jack
