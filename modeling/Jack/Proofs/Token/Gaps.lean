import Jack.Proofs.Token.Lexemes

/-!
Gaps between tokens. `IsGap` says which texts are sequences of blanks and comments, and
`skipGap_eq_ok_iff` that the lexer goes over the longest one.
-/

namespace Jack

/-- A sequence of blanks and comments that stands before `rest`. A line comment goes up to the end
of its line, a block comment up to the first `*/` behind its `/*`. -/
inductive IsGap (rest : List Char) : List Char → Prop
  | nil : IsGap rest []
  | blank {c : Char} {gap : List Char} (h : isBlank c = true) (more : IsGap rest gap) :
      IsGap rest (c :: gap)
  | line {text gap : List Char} (h : '\n' ∉ text) (hend : ∀ c ∈ (gap ++ rest).head?, c = '\n')
      (more : IsGap rest gap) : IsGap rest ('/' :: '/' :: (text ++ gap))
  | block {text gap : List Char} (h : ¬ ['*', '/'] <:+: text) (more : IsGap rest gap) :
      IsGap rest ('/' :: '*' :: (text ++ '*' :: '/' :: gap))

/-- No blank and no comment starts the text. -/
def Solid (cs : List Char) : Prop :=
  (∀ c ∈ cs.head?, isBlank c = false) ∧ ¬ ['/', '/'] <+: cs ∧ ¬ ['/', '*'] <+: cs

variable {pos start : Nat} {c : Char} {cs text : List Char}

/-! ### Steps of the lexer -/

theorem skipGap_of_solid (h : Solid cs) : skipGap .blanks pos cs = .ok ⟨pos, cs⟩ := by
  obtain ⟨hblank, hline, hblock⟩ := h
  cases cs with
  | nil => simp only [skipGap]
  | cons c cs =>
    have hc : isBlank c = false := hblank c rfl
    rw [skipGap]
    · simp [hc]
    · rintro cs' rfl rfl
      exact hline ⟨cs', rfl⟩
    · rintro cs' rfl rfl
      exact hblock ⟨cs', rfl⟩

theorem skipGap_blank (h : isBlank c = true) :
    skipGap .blanks pos (c :: cs) = skipGap .blanks (pos + c.utf8Size) cs := by
  have hc : c ≠ '/' := by
    rintro rfl
    simp [isBlank] at h
  rw [skipGap]
  · simp [h]
  · intro _ hslash
    exact absurd hslash hc
  · intro _ hslash
    exact absurd hslash hc

/-- A line comment ends before a line feed or at the end of the text. -/
theorem skipGap_line (htext : '\n' ∉ text) (hend : ∀ c ∈ cs.head?, c = '\n') :
    skipGap .line pos (text ++ cs) = skipGap .blanks (pos + byteLength text) cs := by
  induction text generalizing pos with
  | nil =>
    cases cs with
    | nil => simp [skipGap]
    | cons c cs =>
      obtain rfl : c = '\n' := hend c rfl
      have hblank : isBlank '\n' = true := by decide
      rw [skipGap_blank hblank]
      simp [skipGap, show '\n'.utf8Size = 1 by decide]
  | cons c text ih =>
    simp only [List.mem_cons, not_or] at htext
    have hc : c ≠ '\n' := Ne.symm htext.1
    rw [List.cons_append, skipGap, if_neg hc, ih htext.2, byteLength_cons, Nat.add_assoc]

/-- A block comment ends behind the first `*/`. -/
theorem skipGap_block (htext : ¬ ['*', '/'] <:+: text) :
    skipGap (.block start) pos (text ++ '*' :: '/' :: cs) =
      skipGap .blanks (pos + byteLength text + 2) cs := by
  induction text generalizing pos with
  | nil => simp [skipGap]
  | cons c text ih =>
    rw [List.infix_cons_iff, not_or] at htext
    rw [List.cons_append, skipGap, ih htext.2, byteLength_cons, ← Nat.add_assoc]
    · rintro cs' rfl hcs
      cases text with
      | nil => simp at hcs
      | cons c text =>
        obtain ⟨rfl, -⟩ := List.cons.inj hcs
        exact htext.1 ⟨text, rfl⟩

/-- The lexer goes over a gap, and then on over what follows. -/
theorem skipGap_append {gap rest : List Char} (h : IsGap rest gap) :
    skipGap .blanks pos (gap ++ rest) = skipGap .blanks (pos + byteLength gap) rest := by
  have hslash : '/'.utf8Size = 1 := by decide
  have hstar : '*'.utf8Size = 1 := by decide
  induction h generalizing pos with
  | nil => rfl
  | blank hc _ ih =>
    rw [List.cons_append, skipGap_blank hc, ih, byteLength_cons, Nat.add_assoc]
  | line htext hend _ ih =>
    rw [List.cons_append, List.cons_append, List.append_assoc, skipGap, skipGap_line htext hend, ih]
    simp only [byteLength_cons, byteLength_append]
    congr 1
    omega
  | block htext _ ih =>
    rw [List.cons_append, List.cons_append, List.append_assoc, List.cons_append, List.cons_append,
      skipGap, skipGap_block htext, ih]
    simp only [byteLength_cons, byteLength_append]
    congr 1
    omega

theorem skipGap_of_isGap {gap rest : List Char} (h : IsGap rest gap) (hsolid : Solid rest) :
    skipGap .blanks pos (gap ++ rest) = .ok ⟨pos + byteLength gap, rest⟩ := by
  rw [skipGap_append h, skipGap_of_solid hsolid]

/-! ### What the lexer skips -/

/-- What is left of a gap, by where in it the lexer is. -/
def Gap.Leaves (rest : List Char) : Gap → List Char → Prop
  | .blanks, part => IsGap rest part
  | .line, part => ∃ text gap, part = text ++ gap ∧ '\n' ∉ text ∧
      (∀ c ∈ (gap ++ rest).head?, c = '\n') ∧ IsGap rest gap
  | .block _, part => ∃ text gap, part = text ++ '*' :: '/' :: gap ∧ ¬ ['*', '/'] <:+: text ∧
      IsGap rest gap

theorem skipGap_leaves {gap : Gap} {lexer : Lexer} (h : skipGap gap pos cs = .ok lexer) :
    Solid lexer.rest ∧ ∃ part, cs = part ++ lexer.rest ∧ gap.Leaves lexer.rest part := by
  have hnil : Solid [] := by simp [Solid]
  fun_induction skipGap gap pos cs with
  | case1 pos cs ih =>
    obtain ⟨hsolid, _, rfl, text, gap, rfl, htext, hend, hgap⟩ := ih h
    exact ⟨hsolid, _, rfl, .line htext hend hgap⟩
  | case2 pos cs ih =>
    obtain ⟨hsolid, _, rfl, text, gap, rfl, htext, hgap⟩ := ih h
    exact ⟨hsolid, _, rfl, .block htext hgap⟩
  | case3 pos c cs _ _ hblank ih =>
    obtain ⟨hsolid, part, rfl, hgap⟩ := ih h
    exact ⟨hsolid, c :: part, rfl, .blank hblank hgap⟩
  | case4 pos c cs hline hblock hblank =>
    obtain rfl := Except.ok.inj h
    refine ⟨⟨?_, ?_, ?_⟩, [], rfl, .nil⟩
    · simpa using hblank
    · rintro ⟨cs', hcs⟩
      obtain ⟨hc, hcs⟩ := List.cons.inj hcs
      exact hline cs' hc.symm hcs.symm
    · rintro ⟨cs', hcs⟩
      obtain ⟨hc, hcs⟩ := List.cons.inj hcs
      exact hblock cs' hc.symm hcs.symm
  | case5 pos cs ih =>
    obtain ⟨hsolid, part, rfl, hgap⟩ := ih h
    exact ⟨hsolid, '\n' :: part, rfl, [], _, rfl, by simp, by simp, .blank (by decide) hgap⟩
  | case6 pos c cs hc ih =>
    obtain ⟨hsolid, _, rfl, text, gap, rfl, htext, hend, hgap⟩ := ih h
    exact ⟨hsolid, _, rfl, c :: text, gap, rfl, by simp [htext, Ne.symm hc], hend, hgap⟩
  | case7 start pos cs ih =>
    obtain ⟨hsolid, part, rfl, hgap⟩ := ih h
    exact ⟨hsolid, _, rfl, [], part, rfl, by simp, hgap⟩
  | case8 start pos c cs hstar ih =>
    obtain ⟨hsolid, _, rfl, text, gap, rfl, htext, hgap⟩ := ih h
    refine ⟨hsolid, _, rfl, c :: text, gap, rfl, ?_, hgap⟩
    rw [List.infix_cons_iff, not_or]
    refine ⟨?_, htext⟩
    -- the text would start with the end of the comment
    rintro ⟨text', htext'⟩
    obtain ⟨hc, rfl⟩ := List.cons.inj htext'
    exact hstar _ hc.symm rfl
  | case9 start pos => cases h
  | case10 pos =>
    obtain rfl := Except.ok.inj h
    exact ⟨hnil, [], rfl, .nil⟩
  | case11 pos =>
    obtain rfl := Except.ok.inj h
    exact ⟨hnil, [], rfl, [], [], rfl, by simp, by simp, .nil⟩

/-- The lexer goes over a gap, and what follows starts with no other. -/
theorem skipGap_eq_ok_iff {lexer : Lexer} : skipGap .blanks pos cs = .ok lexer ↔
    Solid lexer.rest ∧ ∃ gap, cs = gap ++ lexer.rest ∧ IsGap lexer.rest gap ∧
      lexer.pos = pos + byteLength gap := by
  constructor
  · intro h
    obtain ⟨hsolid, gap, hcs, hgap⟩ := skipGap_leaves h
    obtain ⟨part, hcs', hpos⟩ := Lexer.skipGap_splits h
    obtain rfl := List.append_cancel_right (hcs.symm.trans hcs')
    exact ⟨hsolid, gap, hcs, hgap, hpos⟩
  · rintro ⟨hsolid, gap, rfl, hgap, hpos⟩
    rw [skipGap_of_isGap hgap hsolid, ← hpos]

end Jack
