import Mathlib.Data.Prod.Lex
import Jack.Proofs.Text.Places

/-!
Lines and columns tell the positions of a text apart, and in order. Reading one more character moves
a place to the next column, or behind a line feed to the first column of the next line, so a place
further on in the text is greater, by line first and by column within a line. The column is where
the rest of the line starts.
-/

namespace Jack

/-! ### Fronts of a text -/

section

variable {α : Type} [LinearOrder α] {f : List Char → α} {p q cs : List Char}

theorem lt_append_of_step (hf : ∀ cs c, f cs < f (cs ++ [c])) {more : List Char} (h : more ≠ []) :
    f p < f (p ++ more) := by
  induction more using List.reverseRecOn with
  | nil => exact absurd rfl h
  | append_singleton more c ih =>
    rw [← List.append_assoc]
    have hlast := hf (p ++ more) c
    cases more with
    | nil => simpa using hlast
    | cons x xs => exact (ih (List.cons_ne_nil x xs)).trans hlast

/-- A measure that every character increases is as the lengths are, on the fronts of one text. -/
theorem lt_iff_length_lt (hf : ∀ cs c, f cs < f (cs ++ [c])) (hp : p <+: cs) (hq : q <+: cs) :
    f p < f q ↔ p.length < q.length := by
  have hlt {p q : List Char} (hp : p <+: cs) (hq : q <+: cs) (h : p.length < q.length) :
      f p < f q := by
    obtain ⟨more, rfl⟩ := List.prefix_of_prefix_length_le hp hq h.le
    apply lt_append_of_step hf
    rintro rfl
    simp at h
  rcases Nat.lt_trichotomy p.length q.length with h | h | h
  · exact iff_of_true (hlt hp hq h) h
  · obtain rfl := (List.prefix_of_prefix_length_le hp hq h.le).eq_of_length h
    simp
  · exact iff_of_false (hlt hq hp h).asymm (by omega)

end

/-! ### Places behind a text -/

/-- The line and the column, both from one, of what comes behind `before`, by line first. -/
def placeBehind (before : List Char) : Nat ×ₗ Nat :=
  toLex (before.count '\n' + 1, (Span.lineHead before).length + 1)

theorem placeBehind_feed (before : List Char) :
    placeBehind (before ++ ['\n']) = toLex ((ofLex (placeBehind before)).1 + 1, 1) := by
  simp [placeBehind, Span.lineHead]

theorem placeBehind_char (before : List Char) {c : Char} (hc : c ≠ '\n') :
    placeBehind (before ++ [c]) =
      toLex ((ofLex (placeBehind before)).1, (ofLex (placeBehind before)).2 + 1) := by
  simp [placeBehind, Span.lineHead, hc]

/-- Every character, a line feed or not, leads to a greater place. -/
theorem placeBehind_lt_concat (before : List Char) (c : Char) :
    placeBehind before < placeBehind (before ++ [c]) := by
  by_cases hc : c = '\n'
  · rw [hc, placeBehind_feed, Prod.Lex.lt_iff]
    exact .inl (Nat.lt_add_one _)
  · rw [placeBehind_char before hc, Prod.Lex.lt_iff]
    exact .inr ⟨rfl, Nat.lt_add_one _⟩

theorem byteLength_lt_concat (before : List Char) (c : Char) :
    byteLength before < byteLength (before ++ [c]) := by
  have hpos := c.utf8Size_pos
  simp only [byteLength_append, byteLength_cons, byteLength_nil]
  omega

/-- Places are in the order of bytes. -/
theorem placeBehind_lt_iff {p q cs : List Char} (hp : p <+: cs) (hq : q <+: cs) :
    placeBehind p < placeBehind q ↔ byteLength p < byteLength q :=
  (lt_iff_length_lt placeBehind_lt_concat hp hq).trans
    (lt_iff_length_lt byteLength_lt_concat hp hq).symm

theorem placeBehind_eq_iff {p q cs : List Char} (hp : p <+: cs) (hq : q <+: cs) :
    placeBehind p = placeBehind q ↔ byteLength p = byteLength q := by
  have hle : placeBehind p ≤ placeBehind q ↔ byteLength p ≤ byteLength q := by
    simpa using (placeBehind_lt_iff hq hp).not
  have hge : placeBehind q ≤ placeBehind p ↔ byteLength q ≤ byteLength p := by
    simpa using (placeBehind_lt_iff hp hq).not
  rw [le_antisymm_iff, hle, hge, ← le_antisymm_iff]

/-! ### Places of spans -/

namespace Span

variable {s t : Span} {text : String}

/-- The span starts in the text, between characters or at one of its ends. -/
def StartsIn (s : Span) (text : String) : Prop := (boundary? text s.index).isSome = true

instance (s : Span) (text : String) : Decidable (s.StartsIn text) :=
  inferInstanceAs (Decidable (_ = _))

theorem StartsIn.exists_split (h : s.StartsIn text) :
    ∃ before rest, text.toList = before ++ rest ∧ byteLength before = s.index := by
  obtain ⟨p, hp⟩ := Option.isSome_iff_exists.1 h
  have hempty : (⟨s.index, 0⟩ : Span).fragment? text = some (text.extract p p) := by
    simp [fragment?, stop, hp]
  obtain ⟨a, b, htext, hindex, -⟩ := fragment?_eq_some_iff.1 hempty
  refine ⟨a.toList, (text.extract p p ++ b).toList, ?_, ?_⟩
  · conv_lhs => rw [htext]
    simp only [String.toList_append, List.append_assoc]
  · rw [byteLength_toList, hindex]

/-- The text from the span to its end. -/
theorem fragment?_rest {before rest : List Char} (htext : text.toList = before ++ rest)
    (hindex : byteLength before = s.index) :
    (⟨s.index, text.utf8ByteSize - s.index⟩ : Span).fragment? text = some (String.ofList rest) := by
  have hsize : byteLength rest = text.utf8ByteSize - s.index := by
    rw [← byteLength_toList text, htext, byteLength_append, hindex, Nat.add_sub_cancel_left]
  have hsplit : text.toList = before ++ (rest ++ []) := by rw [List.append_nil, htext]
  exact fragment?_of_toList hsplit hindex hsize

/-- Places are as positions in the text are: one is before another exactly when its line is, or its
column in the same line, and there is one position for each place. What is left of the line behind
the columns before is the text from the position to the end of the line. -/
theorem lineColumn?_orders (hs : s.StartsIn text) (ht : t.StartsIn text) :
    ∃ p q, s.lineColumn? text = some p ∧ t.lineColumn? text = some q ∧
      (s.index < t.index ↔ toLex p < toLex q) ∧ (s.index = t.index ↔ p = q) ∧
      1 ≤ p.1 ∧ 1 ≤ p.2 ∧ ∃ line rest, (textLines text)[p.1 - 1]? = some line ∧
        (⟨s.index, text.utf8ByteSize - s.index⟩ : Span).fragment? text = some rest ∧
        line.drop (p.2 - 1) = rest.toList.takeWhile (· ≠ '\n') := by
  obtain ⟨before, rest, htext, hindex⟩ := hs.exists_split
  obtain ⟨before', rest', htext', hindex'⟩ := ht.exists_split
  have hfront : before <+: text.toList := ⟨rest, htext.symm⟩
  have hfront' : before' <+: text.toList := ⟨rest', htext'.symm⟩
  refine ⟨_, _, lineColumn?_eq htext hindex, lineColumn?_eq htext' hindex', ?_, ?_,
    Nat.le_add_left .., Nat.le_add_left .., _, _, textLines_getElem?_count htext,
    fragment?_rest htext hindex, ?_⟩
  · rw [← hindex, ← hindex']
    exact (placeBehind_lt_iff hfront hfront').symm
  · rw [← hindex, ← hindex', ← placeBehind_eq_iff hfront hfront']
    exact toLex_inj
  · rw [Nat.add_sub_cancel, List.drop_left, String.toList_ofList]

/-- Behind the last line feed a place is greater than on the line before, though its column is less.
-/
theorem lineColumn?_orders_lastFeed :
    let text := "é\n\nüx\n"
    let s : Span := ⟨6, 1⟩
    let t : Span := ⟨8, 0⟩
    s.StartsIn text ∧ t.StartsIn text ∧ s.lineColumn? text = some (3, 2) ∧
      t.lineColumn? text = some (4, 1) ∧ (s.index < t.index ↔ toLex (3, 2) < toLex (4, 1)) ∧
      ∃ line rest, (textLines text)[2]? = some line ∧ (⟨6, 2⟩ : Span).fragment? text = some rest ∧
        line.drop 1 = rest.toList.takeWhile (· ≠ '\n') := by
  intro text s t
  have hs : s.StartsIn text := by decide +kernel
  have ht : t.StartsIn text := by decide +kernel
  have hp : s.lineColumn? text = some (3, 2) := by decide +kernel
  have hq : t.lineColumn? text = some (4, 1) := by decide +kernel
  obtain ⟨p, q, hp', hq', horder, -, -, -, hrest⟩ := lineColumn?_orders hs ht
  obtain rfl : (3, 2) = p := Option.some.inj (hp.symm.trans hp')
  obtain rfl : (4, 1) = q := Option.some.inj (hq.symm.trans hq')
  exact ⟨hs, ht, hp, hq, horder, hrest⟩

end Span

end Jack
