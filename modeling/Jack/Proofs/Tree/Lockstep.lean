import Jack.Proofs.Tree.Reading
import Mathlib.Computability.Language
import Mathlib.Order.CompletePartialOrder

/-!
Readers side by side. `Follows` says two things about a reader. What it has taken when it fails is
the front of some word of its language, so that what comes before an error could have been
continued. And on an input with the same kinds of tokens, up to and including the one where the
reader ends, a second reader goes the same way: it succeeds where the first one succeeds, and fails
where the first one finds a token out of place.

The second input is one with `q` tokens where the first has `p` tokens that it does not share.
-/

namespace Jack

/-- The error is about a token that cannot stand where it does, whatever the nesting. -/
def SyntaxError.Misplaced : SyntaxError → Prop
  | mismatch _ _ => True
  | unexpected _ _ => True
  | nesting _ => False
  | integer _ => False
  | unreadable _ => False

namespace Cursor

/-- The kinds of the tokens from the current one on, the end of the source included. -/
def kinds (c : Cursor) : List Kind := c.ahead.map Token.kind ++ [c.last.kind]

theorem Closed.current_of_length {c : Cursor} (hc : c.Closed) (h : c.ahead.length = 0) :
    c.current.kind = .endOfSource := by
  obtain ⟨source, ahead, last⟩ := c
  obtain rfl : ahead = [] := List.length_eq_zero_iff.1 h
  exact hc

/-- Every token ahead has a value in the source, and behind them comes its end. -/
structure Readable (c : Cursor) : Prop where
  closed : c.Closed
  exists_terminal : ∀ t ∈ c.ahead, ∃ x : Terminal, x.token = t ∧ x.ReadAs c.source

theorem length_kinds (c : Cursor) : c.kinds.length = c.ahead.length + 1 := by simp [kinds]

theorem kinds_eq_cons (c : Cursor) : ∃ rest, c.kinds = c.current.kind :: rest := by
  obtain ⟨source, ahead, last⟩ := c
  cases ahead with
  | nil => exact ⟨[], rfl⟩
  | cons t ts => exact ⟨ts.map Token.kind ++ [last.kind], rfl⟩

theorem kinds_before (c : Cursor) (xs : List Terminal) :
    (c.before xs).kinds = xs.map (·.token.kind) ++ c.kinds := by
  simp [kinds, before, Function.comp_def]

/-- The current token of a readable cursor is a terminal, or the cursor is at the end. -/
theorem Readable.current {c : Cursor} (hc : c.Readable) (hend : c.current.kind ≠ .endOfSource) :
    ∃ x : Terminal, c.current = x.token ∧ x.ReadAs c.source := by
  obtain ⟨source, ahead, last⟩ := c
  cases ahead with
  | nil => exact absurd hc.closed hend
  | cons t ts =>
    obtain ⟨x, hx, hread⟩ := hc.exists_terminal t (by simp)
    exact ⟨x, hx.symm, hread⟩

end Cursor

namespace Took

variable {c c₁ : Cursor} {xs : List Terminal}

theorem length_ahead (h : Took c xs c₁) : c.ahead.length = xs.length + c₁.ahead.length := by
  rw [h.eq_before]
  simp [Cursor.before]

theorem kinds (h : Took c xs c₁) : c.kinds = xs.map (·.token.kind) ++ c₁.kinds := by
  rw [h.eq_before, Cursor.kinds_before]

theorem readable (h : Took c xs c₁) (hc : c.Readable) : c₁.Readable := by
  refine ⟨h.closed, fun t ht => ?_⟩
  have hmem : t ∈ c.ahead := by
    rw [h.eq_before]
    exact List.mem_append_right _ ht
  obtain ⟨x, hx, hread⟩ := hc.exists_terminal t hmem
  refine ⟨x, hx, ?_⟩
  rwa [h.eq_before, Cursor.source_before] at hread

end Took

/-- The inputs ahead start with tokens of the same kinds, at least one of them. Behind these the
first one has `p` tokens left, and the second one, which is readable, has `q`. -/
structure Agree (p q : Nat) (c c' : Cursor) : Prop where
  readable : c'.Readable
  exists_common : ∃ common rest rest', common ≠ [] ∧ c.kinds = common ++ rest ∧
    c'.kinds = common ++ rest' ∧ rest.length = p ∧ rest'.length = q

namespace Agree

variable {p q : Nat} {c c' c₁ c₁' : Cursor}

theorem current_kind (h : Agree p q c c') : c'.current.kind = c.current.kind := by
  obtain ⟨common, rest, rest', hne, hc, hc', -, -⟩ := h.exists_common
  obtain ⟨tail, htail⟩ := c.kinds_eq_cons
  obtain ⟨tail', htail'⟩ := c'.kinds_eq_cons
  cases common with
  | nil => exact absurd rfl hne
  | cons k ks =>
    rw [htail] at hc
    rw [htail'] at hc'
    exact (List.cons.inj hc').1.trans (List.cons.inj hc).1.symm

theorem length_ahead (h : Agree p q c c') : c'.ahead.length + p = c.ahead.length + q := by
  obtain ⟨common, rest, rest', -, hc, hc', rfl, rfl⟩ := h.exists_common
  have hlength := congrArg List.length hc
  have hlength' := congrArg List.length hc'
  rw [Cursor.length_kinds, List.length_append] at hlength hlength'
  omega

/-- Past a token of the same kind on both sides, as long as the first cursor stays within the
tokens that they share. -/
theorem step {x x' : Terminal} (h : Agree p q c c') (hx : Took c [x] c₁) (hx' : Took c' [x'] c₁')
    (hp : p ≤ c₁.ahead.length) : Agree p q c₁ c₁' := by
  refine ⟨hx'.readable h.readable, ?_⟩
  obtain ⟨common, rest, rest', hne, hc, hc', hrest, hrest'⟩ := h.exists_common
  rw [hx.kinds] at hc
  rw [hx'.kinds] at hc'
  cases common with
  | nil => exact absurd rfl hne
  | cons k ks =>
    have htail : c₁.kinds = ks ++ rest := (List.cons.inj hc).2
    refine ⟨ks, rest, rest', ?_, htail, (List.cons.inj hc').2, hrest, hrest'⟩
    rintro rfl
    have hlength := congrArg List.length htail
    rw [Cursor.length_kinds, List.nil_append] at hlength
    omega

end Agree

/-! ### Languages -/

/-- The words that trees spell. -/
def words {α : Type} (f : α → List Terminal) : Language Terminal := Set.range f

theorem mem_words {α : Type} (f : α → List Terminal) (a : α) : f a ∈ words f := ⟨a, rfl⟩

theorem Terminal.eq_keyword {x : Terminal} {k : Keyword} (h : x.token.kind = .keyword k) :
    ∃ span, [Terminal.keyword k span] = [x] := by
  cases x <;> simp_all [Terminal.token]

theorem Terminal.eq_symbol {x : Terminal} {s : Symbol} (h : x.token.kind = .symbol s) :
    ∃ span, [Terminal.symbol s span] = [x] := by
  cases x <;> simp_all [Terminal.token]

theorem Terminal.eq_identifier {x : Terminal} (h : x.token.kind = .identifier) :
    ∃ name : Ident, name.terminals = [x] := by
  cases x with
  | identifier name span => exact ⟨⟨name, span⟩, rfl⟩
  | _ => simp [Terminal.token] at h

theorem kstar_words_le {α : Type} (f : α → List Terminal) :
    KStar.kstar (words f) ≤ words fun as : List α => as.flatMap f := by
  intro word hword
  obtain ⟨parts, rfl, hparts⟩ := Language.mem_kstar.1 hword
  induction parts with
  | nil => exact ⟨[], rfl⟩
  | cons part parts ih =>
    rw [List.forall_mem_cons] at hparts
    obtain ⟨a, rfl⟩ := hparts.1
    obtain ⟨as, has⟩ := ih hparts.2 (Language.join_mem_kstar hparts.2)
    exact ⟨a :: as, by simpa using has⟩

instance {α : Type} [Nonempty α] : Nonempty (Separated α) := ⟨⟨Classical.arbitrary α, []⟩⟩

/-- An item, and a comma and an item any number of times. -/
theorem separated_words_le {α : Type} (f : α → List Terminal) :
    words f * KStar.kstar (words (fun span => [.symbol .comma span]) * words f) ≤
      words (Separated.terminals f) := by
  have hcomma : words (fun span => [.symbol .comma span]) * words f ≤ words (commaTerminals f) := by
    rintro _ ⟨_, ⟨comma, rfl⟩, _, ⟨a, rfl⟩, rfl⟩
    exact ⟨(comma, a), rfl⟩
  rintro _ ⟨_, ⟨head, rfl⟩, tail, htail, rfl⟩
  obtain ⟨items, rfl⟩ := kstar_words_le _ (kstar_mono hcomma htail)
  exact ⟨⟨head, items⟩, rfl⟩

namespace Reader

variable {α β : Type} {p q : Nat} {L M : Language Terminal} {good : α → Prop} {c : Cursor}

/-! ### What a reader does -/

/-- The error names the token at which the reader stopped, and says that it is out of place or
nested too deep. -/
def NamesCurrent (halt : Halt) : Prop :=
  halt.error.found = halt.cursor.current ∧
    (halt.error.Misplaced ∨ halt.error = .nesting halt.cursor.current)

/-- The tokens taken are a word of the language, or the front of one when the reader fails. -/
structure Ends (L : Language Terminal) (good : α → Prop) (c : Cursor)
    (x : Except Halt (α × Cursor)) : Prop where
  ok : ∀ a c₁, x = .ok (a, c₁) → good a ∧ ∃ word ∈ L, Took c word c₁
  error : ∀ halt, x = .error halt → NamesCurrent halt ∧
    ∃ word rest, word ++ rest ∈ L ∧ Took c word halt.cursor

/-- The second run goes the way of the first one, if that ends within the tokens shared. -/
structure Mirrors (p q : Nat) (good : α → Prop) (x x' : Except Halt (α × Cursor)) : Prop where
  ok : ∀ a c₁, x = .ok (a, c₁) → p ≤ c₁.ahead.length →
    ∃ a' c₁', x' = .ok (a', c₁') ∧ good a' ∧ Agree p q c₁ c₁'
  error : ∀ halt, x = .error halt → halt.error.Misplaced → p ≤ halt.cursor.ahead.length →
    ∃ halt', x' = .error halt'

structure Follows (p q : Nat) (L : Language Terminal) (good : α → Prop) (r r' : Reader α)
    (c : Cursor) : Prop where
  nonempty : ∃ word, word ∈ L
  ends : Ends L good c (r c)
  mirrors : ∀ c', Agree p q c c' → Mirrors p q good (r c) (r' c')

namespace Ends

variable {x : Except Halt (α × Cursor)}

theorem le_of_ok {a : α} {c₁ : Cursor} (h : Ends L good c x) (hx : x = .ok (a, c₁)) :
    c₁.ahead.length ≤ c.ahead.length := by
  obtain ⟨-, word, -, htook⟩ := h.ok a c₁ hx
  have hlength := htook.length_ahead
  omega

theorem le_of_error {halt : Halt} (h : Ends L good c x) (hx : x = .error halt) :
    halt.cursor.ahead.length ≤ c.ahead.length := by
  obtain ⟨-, word, rest, -, htook⟩ := h.error halt hx
  have hlength := htook.length_ahead
  omega

theorem lt_of_ok {a : α} {c₁ : Cursor} (h : Ends L good c x) (hne : [] ∉ L)
    (hx : x = .ok (a, c₁)) : c₁.ahead.length < c.ahead.length := by
  obtain ⟨-, word, hword, htook⟩ := h.ok a c₁ hx
  have hlength := htook.length_ahead
  have hpos : word.length ≠ 0 := fun h0 => hne (List.length_eq_zero_iff.1 h0 ▸ hword)
  omega

theorem readable {a : α} {c₁ : Cursor} (h : Ends L good c x) (hc : c.Readable)
    (hx : x = .ok (a, c₁)) : c₁.Readable := by
  obtain ⟨-, word, -, htook⟩ := h.ok a c₁ hx
  exact htook.readable hc

end Ends

namespace Follows

variable {r r' : Reader α}

theorem widen (h : Follows p q L good r r' c) (hL : L ≤ M) : Follows p q M good r r' c where
  nonempty := by
    obtain ⟨word, hword⟩ := h.nonempty
    exact ⟨word, hL hword⟩
  ends := by
    constructor
    · intro a c₁ hr
      obtain ⟨ha, word, hword, htook⟩ := h.ends.ok a c₁ hr
      exact ⟨ha, word, hL hword, htook⟩
    · intro halt hr
      obtain ⟨hnames, word, rest, hword, htook⟩ := h.ends.error halt hr
      exact ⟨hnames, word, rest, hL hword, htook⟩
  mirrors := h.mirrors

theorem pure {a a' : α} (hc : c.Readable) (ha : good a) (ha' : good a') :
    Follows p q 1 good (pure a) (pure a') c where
  nonempty := ⟨[], Language.nil_mem_one⟩
  ends := by
    constructor
    · intro b c₁ h
      simp only [pure_apply, Except.ok.injEq, Prod.mk.injEq] at h
      obtain ⟨rfl, rfl⟩ := h
      exact ⟨ha, [], Language.nil_mem_one, .refl hc.closed⟩
    · simp
  mirrors := by
    intro c' hagree
    constructor
    · intro b c₁ h _
      simp only [pure_apply, Except.ok.injEq, Prod.mk.injEq] at h
      obtain ⟨rfl, rfl⟩ := h
      exact ⟨a', c', rfl, ha', hagree⟩
    · simp

/-- A reader that fails where it stands. -/
theorem fail {error : Token → SyntaxError} (hc : c.Readable) (hL : ∃ word, word ∈ L)
    (hfound : ∀ t, (error t).found = t) (hkind : ∀ t, (error t).Misplaced ∨ error t = .nesting t)
    (hr' : ∀ c', (error c.current).Misplaced → ∃ halt', r' c' = .error halt') :
    Follows p q L good (Reader.fail error) r' c where
  nonempty := hL
  ends := by
    obtain ⟨word, hword⟩ := hL
    constructor
    · simp [Reader.fail]
    · intro halt h
      obtain rfl : _ = halt := Except.error.inj h
      exact ⟨⟨hfound _, hkind _⟩, [], word, hword, .refl hc.closed⟩
  mirrors := by
    intro c' _
    constructor
    · simp [Reader.fail]
    · intro halt h hmisplaced _
      obtain rfl : _ = halt := Except.error.inj h
      exact hr' c' hmisplaced

theorem unexpected {hint : String} (hc : c.Readable) (hL : ∃ word, word ∈ L) :
    Follows p q L good (Reader.unexpected hint) (Reader.unexpected hint) c := by
  rw [unexpected_eq]
  exact .fail hc hL (fun _ => rfl) (fun _ => .inl trivial) fun _ _ => ⟨_, rfl⟩

theorem tooDeep (hc : c.Readable) (hL : ∃ word, word ∈ L) :
    Follows p q L good Reader.tooDeep r' c :=
  .fail hc hL (fun _ => rfl) (fun _ => .inr rfl) fun _ h => h.elim

theorem nested (h : Follows p q L good r r' c) :
    Follows p q L good (nested r) (nested r') c where
  nonempty := h.nonempty
  ends := by
    constructor
    · intro a c₁ hr
      cases hx : r c with
      | error halt => simp [Reader.nested, hx] at hr
      | ok result => exact h.ends.ok a c₁ (by simpa [Reader.nested, hx] using hr)
    · intro halt hr
      cases hx : r c with
      | ok result => simp [Reader.nested, hx] at hr
      | error inner =>
        obtain rfl : _ = halt := by simpa [Reader.nested, hx] using hr
        exact h.ends.error inner hx
  mirrors := by
    intro c' hagree
    constructor
    · intro a c₁ hr hp
      cases hx : r c with
      | error halt => simp [Reader.nested, hx] at hr
      | ok result =>
        have hok : r c = .ok (a, c₁) := by simpa [Reader.nested, hx] using hr
        obtain ⟨a', c₁', hr', ha', hagree'⟩ := (h.mirrors c' hagree).ok a c₁ hok hp
        exact ⟨a', c₁', by simp [Reader.nested, hr'], ha', hagree'⟩
    · intro halt hr hmisplaced hp
      cases hx : r c with
      | ok result => simp [Reader.nested, hx] at hr
      | error inner =>
        obtain rfl : _ = halt := by simpa [Reader.nested, hx] using hr
        obtain ⟨halt', hr'⟩ := (h.mirrors c' hagree).error inner hx hmisplaced hp
        exact ⟨_, by simp [Reader.nested, hr']; rfl⟩

/-! ### Sequences -/

/-- One reader after another. An error of the first one can be continued by any word of the
second one's language, so that must have one whatever the first result is. -/
theorem bindOf {x x' : Reader α} {f f' : α → Reader β} {mid : α → Prop} {good : β → Prop}
    (hx : Follows p q L mid x x' c) (hc : c.Readable) (hmid : ∃ a, mid a)
    (hf : ∀ a a' c₁, mid a → mid a' → c₁.Readable → Follows p q M good (f a) (f' a') c₁) :
    Follows p q (L * M) good (x >>= f) (x' >>= f') c where
  nonempty := by
    obtain ⟨a, ha⟩ := hmid
    obtain ⟨word, hword⟩ := hx.nonempty
    obtain ⟨rest, hrest⟩ := (hf a a c ha ha hc).nonempty
    exact ⟨word ++ rest, Language.append_mem_mul hword hrest⟩
  ends := by
    rw [bind_apply]
    cases hxc : x c with
    | error halt =>
      obtain ⟨a, ha⟩ := hmid
      obtain ⟨more, hmore⟩ := (hf a a c ha ha hc).nonempty
      obtain ⟨hnames, word, rest, hword, htook⟩ := hx.ends.error halt hxc
      constructor
      · simp
      · intro halt₁ h
        obtain rfl : halt = halt₁ := Except.error.inj h
        refine ⟨hnames, word, rest ++ more, ?_, htook⟩
        rw [← List.append_assoc]
        exact Language.append_mem_mul hword hmore
    | ok result =>
      obtain ⟨a, c₁⟩ := result
      obtain ⟨ha, word, hword, htook⟩ := hx.ends.ok a c₁ hxc
      have hrest := (hf a a c₁ ha ha (htook.readable hc)).ends
      constructor
      · intro b c₂ h
        obtain ⟨hb, word₂, hword₂, htook₂⟩ := hrest.ok b c₂ h
        exact ⟨hb, word ++ word₂, Language.append_mem_mul hword hword₂, htook.trans htook₂⟩
      · intro halt h
        obtain ⟨hnames, word₂, rest, hword₂, htook₂⟩ := hrest.error halt h
        refine ⟨hnames, word ++ word₂, rest, ?_, htook.trans htook₂⟩
        rw [List.append_assoc]
        exact Language.append_mem_mul hword hword₂
  mirrors := by
    intro c' hagree
    rw [bind_apply, bind_apply]
    cases hxc : x c with
    | error halt =>
      constructor
      · simp
      · intro halt₁ h hmisplaced hp
        obtain rfl : halt = halt₁ := Except.error.inj h
        obtain ⟨halt', hx'⟩ := (hx.mirrors c' hagree).error halt hxc hmisplaced hp
        exact ⟨halt', by rw [hx']⟩
    | ok result =>
      obtain ⟨a, c₁⟩ := result
      obtain ⟨ha, word, -, htook⟩ := hx.ends.ok a c₁ hxc
      have hc₁ := htook.readable hc
      -- The rest of the run only moves on, so it ends among the shared tokens only if `x` does.
      have hx' (hp : p ≤ c₁.ahead.length) := (hx.mirrors c' hagree).ok a c₁ hxc hp
      constructor
      · intro b c₂ h hp
        have hle := (hf a a c₁ ha ha hc₁).ends.le_of_ok h
        obtain ⟨a', c₁', hok, ha', hagree₁⟩ := hx' (Nat.le_trans hp hle)
        rw [hok]
        exact ((hf a a' c₁ ha ha' hc₁).mirrors c₁' hagree₁).ok b c₂ h hp
      · intro halt h hmisplaced hp
        have hle := (hf a a c₁ ha ha hc₁).ends.le_of_error h
        obtain ⟨a', c₁', hok, ha', hagree₁⟩ := hx' (Nat.le_trans hp hle)
        rw [hok]
        exact ((hf a a' c₁ ha ha' hc₁).mirrors c₁' hagree₁).error halt h hmisplaced hp

theorem bind [Nonempty α] {x x' : Reader α} {f f' : α → Reader β} {good : β → Prop}
    (hx : Follows p q L (fun _ => True) x x' c) (hc : c.Readable)
    (hf : ∀ a a' c₁, c₁.Readable → Follows p q M good (f a) (f' a') c₁) :
    Follows p q (L * M) good (x >>= f) (x' >>= f') c :=
  hx.bindOf hc ⟨Classical.arbitrary α, trivial⟩ fun a a' c₁ _ _ => hf a a' c₁

theorem map [Nonempty α] {x x' : Reader α} {f f' : α → β} {good : β → Prop}
    (hx : Follows p q L (fun _ => True) x x' c) (hc : c.Readable) (hf : ∀ a, good (f a))
    (hf' : ∀ a, good (f' a)) : Follows p q L good (f <$> x) (f' <$> x') c := by
  rw [map_eq_pure_bind, map_eq_pure_bind, ← mul_one L]
  exact hx.bind hc fun a a' c₁ hc₁ => .pure hc₁ (hf a) (hf' a')

/-- A choice by the current token goes by its kind. -/
theorem bindCurrent {f f' : Token → Reader α}
    (h : Follows p q L good (f c.current) (f' c.current) c)
    (hf' : ∀ t, t.kind = c.current.kind → f' t = f' c.current) :
    Follows p q L good (current >>= f) (current >>= f') c where
  nonempty := h.nonempty
  ends := h.ends
  mirrors := by
    intro c' hagree
    have hsame : (current >>= f') c' = f' c.current c' := congrFun (hf' _ hagree.current_kind) c'
    rw [hsame]
    exact h.mirrors c' hagree

theorem bindIte {b : Prop} [Decidable b] {x y x' y' : Reader α} {k k' : α → Reader β}
    {good : β → Prop}
    (h : Follows p q L good ((if b then x else y) >>= k) ((if b then x' else y') >>= k') c) :
    Follows p q L good (if b then x >>= k else y >>= k) (if b then x' >>= k' else y' >>= k') c := by
  split <;> simp_all

/-! ### Single tokens -/

/-- A reader that takes the current token, which is of the kind that it needs. -/
theorem of_take {kind : Kind} (hc : c.Readable) (hend : kind ≠ .endOfSource)
    (hkind : c.current.kind = kind)
    (hL : ∀ x : Terminal, x.token.kind = kind → [x] ∈ L)
    (hr : ∀ c : Cursor, c.Readable → c.current.kind = kind → ∃ a, r c = .ok (a, c.advance)) :
    Follows p q L (fun _ => True) r r c := by
  have htake (c : Cursor) (hc : c.Readable) (hkind : c.current.kind = kind) :
      ∃ x a, r c = .ok (a, c.advance) ∧ Took c [x] c.advance ∧ [x] ∈ L := by
    obtain ⟨x, hx, hread⟩ := hc.current (hkind ▸ hend)
    obtain ⟨a, ha⟩ := hr c hc hkind
    exact ⟨x, a, ha, .of_current hc.closed hx hread, hL x (hx ▸ hkind)⟩
  obtain ⟨x, a, ha, htook, hword⟩ := htake c hc hkind
  refine ⟨⟨[x], hword⟩, ⟨?_, ?_⟩, fun c' hagree => ⟨?_, ?_⟩⟩
  · intro b c₁ h
    simp only [ha, Except.ok.injEq, Prod.mk.injEq] at h
    obtain ⟨rfl, rfl⟩ := h
    exact ⟨trivial, [x], hword, htook⟩
  · simp [ha]
  · intro b c₁ h hp
    simp only [ha, Except.ok.injEq, Prod.mk.injEq] at h
    obtain ⟨rfl, rfl⟩ := h
    obtain ⟨x', a', ha', htook', -⟩ := htake c' hagree.readable (hagree.current_kind.trans hkind)
    exact ⟨a', c'.advance, ha', trivial, hagree.step htook htook' hp⟩
  · simp [ha]

end Follows

/-- A reader for one token of the kind, which stays and fails at any other. -/
def Needs (kind : Kind) (r : Reader α) : Prop :=
  ∀ c : Cursor, c.Readable →
    if c.current.kind = kind then ∃ a, r c = .ok (a, c.advance)
    else r c = .error ⟨.mismatch c.current kind, c, 0⟩

theorem Needs.follows {kind : Kind} {r : Reader α} (h : Needs kind r) (hc : c.Readable)
    (hend : kind ≠ .endOfSource) (hne : ∃ word, word ∈ L)
    (hL : ∀ x : Terminal, x.token.kind = kind → [x] ∈ L) :
    Follows p q L (fun _ => True) r r c := by
  by_cases hkind : c.current.kind = kind
  · refine .of_take hc hend hkind hL fun c hc hkind => ?_
    have hneeds := h c hc
    rwa [if_pos hkind] at hneeds
  · have hr := h c hc
    rw [if_neg hkind] at hr
    obtain ⟨word, hword⟩ := hne
    refine ⟨⟨word, hword⟩, ⟨by simp [hr], ?_⟩, fun c' hagree => ⟨by simp [hr], ?_⟩⟩
    · intro halt hhalt
      obtain rfl : _ = halt := Except.error.inj (hr.symm.trans hhalt)
      exact ⟨⟨rfl, .inl trivial⟩, [], word, hword, .refl hc.closed⟩
    · intro halt _ _ _
      have hr' := h c' hagree.readable
      rw [if_neg (hagree.current_kind ▸ hkind)] at hr'
      exact ⟨_, hr'⟩

theorem expect_needs (kind : Kind) : Needs kind (expect kind) := by
  intro c _
  split
  · rename_i hkind
    exact ⟨c.current.span, by simp [expect, Cursor.accept?, hkind]⟩
  · rename_i hkind
    simp [expect, Cursor.accept?, hkind]

theorem expectKeyword_follows (hc : c.Readable) (k : Keyword) :
    Follows p q (words fun span => [.keyword k span]) (fun _ => True) (expect (.keyword k))
      (expect (.keyword k)) c :=
  (expect_needs _).follows hc (by simp) ⟨_, mem_words _ ⟨0, 0⟩⟩ fun _ hx => Terminal.eq_keyword hx

theorem expectSymbol_follows (hc : c.Readable) (s : Symbol) :
    Follows p q (words fun span => [.symbol s span]) (fun _ => True) (expect (.symbol s))
      (expect (.symbol s)) c :=
  (expect_needs _).follows hc (by simp) ⟨_, mem_words _ ⟨0, 0⟩⟩ fun _ hx => Terminal.eq_symbol hx

theorem takeKeyword_follows (hc : c.Readable) {k : Keyword} (hk : c.current.kind = .keyword k) :
    Follows p q (words fun span => [.keyword k span]) (fun _ => True) take take c :=
  .of_take hc (by simp) hk (fun _ hx => Terminal.eq_keyword hx) fun c _ _ => ⟨c.current.span, rfl⟩

theorem takeSymbol_follows (hc : c.Readable) {s : Symbol} (hs : c.current.kind = .symbol s) :
    Follows p q (words fun span => [.symbol s span]) (fun _ => True) take take c :=
  .of_take hc (by simp) hs (fun _ hx => Terminal.eq_symbol hx) fun c _ _ => ⟨c.current.span, rfl⟩

/-! ### Readers that may decline -/

/-- The two readers decline both, or give both something behind the same tokens. -/
def Proposes (p q : Nat) (L : Language Terminal) (item item' : Reader (Option α)) (c : Cursor) :
    Prop :=
  (item c = .ok (none, c) ∧ ∀ c', Agree p q c c' → item' c' = .ok (none, c')) ∨
    Follows p q L (fun found => found.isSome = true) item item' c

namespace Proposes

variable {item item' : Reader (Option α)} {k k' : Option α → Reader β}

theorem decline : Proposes p q L (pure none) (pure none : Reader (Option α)) c :=
  .inl ⟨rfl, fun _ _ => rfl⟩

theorem widen (h : Proposes p q L item item' c) (hL : L ≤ M) : Proposes p q M item item' c :=
  h.imp_right fun h => h.widen hL

theorem bindCurrent {f f' : Token → Reader (Option α)}
    (h : Proposes p q L (f c.current) (f' c.current) c)
    (hf' : ∀ t, t.kind = c.current.kind → f' t = f' c.current) :
    Proposes p q L (current >>= f) (current >>= f') c := by
  rcases h with ⟨hdeclines, hdeclines'⟩ | hfollows
  · refine .inl ⟨hdeclines, fun c' hagree => ?_⟩
    have hsame : (current >>= f') c' = f' c.current c' := congrFun (hf' _ hagree.current_kind) c'
    rw [hsame]
    exact hdeclines' c' hagree
  · exact .inr (hfollows.bindCurrent hf')

/-- What follows an item, or stands in its place. -/
theorem bind [Nonempty α] {N : Language Terminal} {good : β → Prop}
    (h : Proposes p q L item item' c) (hc : c.Readable) (hLM : L * M ≤ N)
    (hnone : Follows p q N good (k none) (k' none) c)
    (hsome : ∀ a a' c₁, c₁.Readable → Follows p q M good (k (some a)) (k' (some a')) c₁) :
    Follows p q N good (item >>= k) (item' >>= k') c := by
  rcases h with ⟨hdeclines, hdeclines'⟩ | hfollows
  · refine ⟨hnone.nonempty, ?_, fun c' hagree => ?_⟩
    · rw [bind_of_ok hdeclines rfl]
      exact hnone.ends
    · rw [bind_of_ok hdeclines rfl, bind_of_ok (hdeclines' c' hagree) rfl]
      exact hnone.mirrors c' hagree
  · refine (hfollows.bindOf hc ⟨some (Classical.arbitrary α), rfl⟩ ?_).widen hLM
    intro found found' c₁ hfound hfound' hc₁
    obtain ⟨a, rfl⟩ := Option.isSome_iff_exists.1 hfound
    obtain ⟨a', rfl⟩ := Option.isSome_iff_exists.1 hfound'
    exact hsome a a' c₁ hc₁

/-- A reader that declines when its first part does. -/
theorem andThen [Nonempty α] {k k' : Option α → Reader (Option β)}
    (h : Proposes p q L item item' c) (hc : c.Readable)
    (hnone : k none = pure none) (hnone' : k' none = pure none)
    (hsome : ∀ a a' c₁, c₁.Readable →
      Follows p q M (fun found => found.isSome = true) (k (some a)) (k' (some a')) c₁) :
    Proposes p q (L * M) (item >>= k) (item' >>= k') c := by
  rcases h with ⟨hdeclines, hdeclines'⟩ | hfollows
  · refine .inl ⟨bind_of_ok hdeclines (by rw [hnone]; rfl), fun c' hagree => ?_⟩
    exact bind_of_ok (hdeclines' c' hagree) (by rw [hnone']; rfl)
  · refine .inr (hfollows.bindOf hc ⟨some (Classical.arbitrary α), rfl⟩ ?_)
    intro found found' c₁ hfound hfound' hc₁
    obtain ⟨a, rfl⟩ := Option.isSome_iff_exists.1 hfound
    obtain ⟨a', rfl⟩ := Option.isSome_iff_exists.1 hfound'
    exact hsome a a' c₁ hc₁

end Proposes

theorem accept?_proposes {kind : Kind} (hc : c.Readable) (hend : kind ≠ .endOfSource)
    (hL : ∀ x : Terminal, x.token.kind = kind → [x] ∈ L) :
    Proposes p q L (accept? kind) (accept? kind) c := by
  by_cases hkind : c.current.kind = kind
  · refine .inr ?_
    have hsome (c : Cursor) (hkind : c.current.kind = kind) :
        accept? kind c = (some <$> take : Reader (Option Span)) c := by
      simp [accept?, Cursor.accept?, hkind, map_of_ok (x := take) (c := c) rfl]
    have htake : Follows p q L (fun _ => True) take take c :=
      .of_take hc hend hkind hL fun c _ _ => ⟨c.current.span, rfl⟩
    have hmap : Follows p q L (fun found => found.isSome = true) (some <$> take)
        (some <$> take) c := htake.map hc (fun _ => rfl) fun _ => rfl
    refine ⟨hmap.nonempty, hsome c hkind ▸ hmap.ends, fun c' hagree => ?_⟩
    rw [hsome c hkind, hsome c' (hagree.current_kind.trans hkind)]
    exact hmap.mirrors c' hagree
  · refine .inl ⟨accept?_of_kind_ne hkind, fun c' hagree => ?_⟩
    exact accept?_of_kind_ne (hagree.current_kind ▸ hkind)

theorem acceptKeyword?_proposes (hc : c.Readable) (k : Keyword) :
    Proposes p q (words fun span => [.keyword k span]) (accept? (.keyword k))
      (accept? (.keyword k)) c :=
  accept?_proposes hc (by simp) fun _ hx => Terminal.eq_keyword hx

theorem acceptSymbol?_proposes (hc : c.Readable) (s : Symbol) :
    Proposes p q (words fun span => [.symbol s span]) (accept? (.symbol s))
      (accept? (.symbol s)) c :=
  accept?_proposes hc (by simp) fun _ hx => Terminal.eq_symbol hx

/-! ### Repetition -/

section

variable {item item' : Reader (Option α)}
  (hitem : ∀ c : Cursor, c.Readable → Proposes p q L item item' c)

/-- The reader declines at the end of the source. -/
def DeclinesAtEnd (item : Reader (Option α)) : Prop :=
  ∀ c : Cursor, c.current.kind = .endOfSource → item c = .ok (none, c)

theorem nextItem_declinesAtEnd (item : Reader (Option α)) : DeclinesAtEnd (nextItem item) := by
  intro c hc
  have hcomma : accept? (.symbol .comma) c = .ok (none, c) := accept?_of_kind_ne (by simp [hc])
  exact bind_of_ok hcomma rfl

theorem manyFrom_at_end (hend : DeclinesAtEnd item) (hc : c.current.kind = .endOfSource)
    (seen : List α) (rounds : List Token) :
    manyFrom item seen rounds c = .ok (seen.reverse, c) := by
  cases rounds <;> simp [manyFrom, hend c hc]

include hitem in
theorem manyFrom_ends (seen : List α) (rounds : List Token) (hc : c.Readable) :
    Ends (KStar.kstar L) (fun _ => True) c (manyFrom item seen rounds c) := by
  have hstop (seen : List α) {c : Cursor} (hc : c.Readable) :
      Ends (KStar.kstar L) (fun _ => True) c (.ok (seen.reverse, c)) := by
    refine ⟨fun a c₁ h => ?_, by simp⟩
    simp only [Except.ok.injEq, Prod.mk.injEq] at h
    obtain ⟨rfl, rfl⟩ := h
    exact ⟨trivial, [], Language.nil_mem_kstar L, .refl hc.closed⟩
  induction rounds generalizing seen c with
  | nil => exact hstop seen hc
  | cons t rounds ih =>
    rw [manyFrom]
    rcases hitem c hc with ⟨hdeclines, -⟩ | hfollows
    · rw [hdeclines]
      exact hstop seen hc
    cases hx : item c with
    | error halt =>
      refine ⟨by simp, fun halt₁ h => ?_⟩
      obtain rfl : halt = halt₁ := Except.error.inj h
      obtain ⟨hnames, word, rest, hword, htook⟩ := hfollows.ends.error halt hx
      exact ⟨hnames, word, rest, le_kstar (a := L) hword, htook⟩
    | ok result =>
      obtain ⟨found, c₁⟩ := result
      obtain ⟨hfound, word, hword, htook⟩ := hfollows.ends.ok found c₁ hx
      obtain ⟨a, rfl⟩ := Option.isSome_iff_exists.1 hfound
      have hrest := ih (a :: seen) (htook.readable hc)
      have hcons {more : List Terminal} (h : more ∈ KStar.kstar L) :
          word ++ more ∈ KStar.kstar L :=
        mul_kstar_le_kstar (a := L) (Language.append_mem_mul hword h)
      constructor
      · intro all c₂ h
        obtain ⟨-, word₂, hword₂, htook₂⟩ := hrest.ok all c₂ h
        exact ⟨trivial, word ++ word₂, hcons hword₂, htook.trans htook₂⟩
      · intro halt h
        obtain ⟨hnames, word₂, rest, hword₂, htook₂⟩ := hrest.error halt h
        refine ⟨hnames, word ++ word₂, rest, ?_, htook.trans htook₂⟩
        rw [List.append_assoc]
        exact hcons hword₂

include hitem in
/-- Both loops go the same way. Each round takes a token on both sides, so neither loop runs out of
rounds before it is at the end, where both items decline. -/
theorem manyFrom_mirrors (hne : [] ∉ L) (hend : DeclinesAtEnd item) (hend' : DeclinesAtEnd item')
    (seen seen' : List α) (rounds rounds' : List Token) {c c' : Cursor} (hc : c.Readable)
    (hagree : Agree p q c c') (hrounds : c.ahead.length ≤ rounds.length)
    (hrounds' : c'.ahead.length ≤ rounds'.length) :
    Mirrors p q (fun _ => True) (manyFrom item seen rounds c)
      (manyFrom item' seen' rounds' c') := by
  have hstop (seen seen' : List α) {c c' : Cursor} (hagree : Agree p q c c') :
      Mirrors p q (fun _ => True) (.ok (seen.reverse, c)) (.ok (seen'.reverse, c')) := by
    refine ⟨fun a c₁ h _ => ?_, by simp⟩
    simp only [Except.ok.injEq, Prod.mk.injEq] at h
    obtain ⟨rfl, rfl⟩ := h
    exact ⟨seen'.reverse, c', rfl, trivial, hagree⟩
  induction rounds generalizing seen seen' rounds' c c' with
  | nil =>
    have hcurrent := hc.closed.current_of_length (Nat.le_zero.1 hrounds)
    rw [manyFrom_at_end hend hcurrent,
      manyFrom_at_end hend' (hagree.current_kind.trans hcurrent)]
    exact hstop seen seen' hagree
  | cons t rounds ih =>
    by_cases hcurrent : c.current.kind = .endOfSource
    · rw [manyFrom_at_end hend hcurrent,
        manyFrom_at_end hend' (hagree.current_kind.trans hcurrent)]
      exact hstop seen seen' hagree
    · cases rounds' with
      | nil =>
        have hcurrent' := hagree.readable.closed.current_of_length (Nat.le_zero.1 hrounds')
        exact absurd (hagree.current_kind.symm.trans hcurrent') hcurrent
      | cons t' rounds' =>
        rw [manyFrom, manyFrom]
        rcases hitem c hc with ⟨hdeclines, hdeclines'⟩ | hfollows
        · rw [hdeclines, hdeclines' c' hagree]
          exact hstop seen seen' hagree
        have hmirrors := hfollows.mirrors c' hagree
        cases hx : item c with
        | error halt =>
          refine ⟨by simp, fun halt₁ h hmisplaced hp => ?_⟩
          obtain rfl : halt = halt₁ := Except.error.inj h
          obtain ⟨halt', hx'⟩ := hmirrors.error halt hx hmisplaced hp
          exact ⟨halt', by rw [hx']⟩
        | ok result =>
          obtain ⟨found, c₁⟩ := result
          obtain ⟨a, rfl⟩ := Option.isSome_iff_exists.1 (hfollows.ends.ok found c₁ hx).1
          have hc₁ := hfollows.ends.readable hc hx
          have hlt := hfollows.ends.lt_of_ok hne hx
          have hends := manyFrom_ends hitem (a :: seen) rounds hc₁
          -- Within the shared tokens, the next rounds start in step again.
          have hnext (hp : p ≤ c₁.ahead.length) : ∃ a' c₁', item' c' = .ok (some a', c₁') ∧
              Mirrors p q (fun _ => True) (manyFrom item (a :: seen) rounds c₁)
                (manyFrom item' (a' :: seen') rounds' c₁') := by
            obtain ⟨found', c₁', hx', hfound', hagree₁⟩ := hmirrors.ok (some a) c₁ hx hp
            obtain ⟨a', rfl⟩ := Option.isSome_iff_exists.1 hfound'
            have hlength := hagree.length_ahead
            have hlength₁ := hagree₁.length_ahead
            simp only [List.length_cons] at hrounds hrounds'
            exact ⟨a', c₁', hx', ih (a :: seen) (a' :: seen') rounds' hc₁ hagree₁ (by omega)
              (by omega)⟩
          constructor
          · intro all c₂ h hp
            obtain ⟨a', c₁', hx', hrest⟩ := hnext (Nat.le_trans hp (hends.le_of_ok h))
            rw [hx']
            exact hrest.ok all c₂ h hp
          · intro halt h hmisplaced hp
            obtain ⟨a', c₁', hx', hrest⟩ := hnext (Nat.le_trans hp (hends.le_of_error h))
            rw [hx']
            exact hrest.error halt h hmisplaced hp

include hitem in
theorem many_follows (hne : [] ∉ L) (hend : DeclinesAtEnd item) (hend' : DeclinesAtEnd item')
    (hc : c.Readable) :
    Follows p q (KStar.kstar L) (fun _ => True) (many item) (many item') c where
  nonempty := ⟨[], Language.nil_mem_kstar L⟩
  ends := manyFrom_ends hitem [] c.ahead hc
  mirrors := fun _ hagree => manyFrom_mirrors hitem hne hend hend' [] [] _ _ hc hagree
    (Nat.le_refl _) (Nat.le_refl _)

include hitem in
theorem nextItem_proposes [Nonempty α] (hL : ∃ word, word ∈ L) (hc : c.Readable) :
    Proposes p q (words (fun span => [.symbol .comma span]) * L) (nextItem item)
      (nextItem item') c := by
  refine (acceptSymbol?_proposes hc .comma).andThen hc rfl rfl fun comma comma' c₁ hc₁ => ?_
  refine (hitem c₁ hc₁).bind hc₁ (mul_one L).le (.unexpected hc₁ hL) fun a a' c₂ hc₂ => ?_
  exact .pure hc₂ rfl rfl

include hitem in
theorem separated?_proposes [Nonempty α] {f : β → List Terminal} (hL : L = words f)
    [Nonempty β] (hc : c.Readable) :
    Proposes p q (words (Separated.terminals f)) (separated? item) (separated? item') c := by
  subst hL
  have hne : [] ∉ words (fun span => [Terminal.symbol .comma span]) * words f := by
    rintro ⟨_, ⟨comma, rfl⟩, _, -, h⟩
    simp at h
  have htail (c : Cursor) (hc : c.Readable) := nextItem_proposes hitem
    ⟨_, mem_words f (Classical.arbitrary β)⟩ hc
  refine Proposes.widen ?_ (separated_words_le f)
  refine (hitem c hc).andThen hc rfl rfl fun head head' c₁ hc₁ => ?_
  have hmany := many_follows htail hne (nextItem_declinesAtEnd item)
    (nextItem_declinesAtEnd item') hc₁
  refine .widen (hmany.bind hc₁ fun tail tail' c₂ hc₂ => ?_) (mul_one _).le
  exact .pure hc₂ rfl rfl

include hitem in
theorem separated_follows [Nonempty α] {f : β → List Terminal} (hL : L = words f)
    [Nonempty β] (hc : c.Readable) :
    Follows p q (words (Separated.terminals f)) (fun _ => True) (separated item)
      (separated item') c := by
  refine (separated?_proposes hitem hL hc).bind hc (mul_one _).le ?_ fun xs xs' c₁ hc₁ => ?_
  · exact .unexpected hc ⟨_, mem_words _ ⟨Classical.arbitrary β, []⟩⟩
  · exact .pure hc₁ trivial trivial

end

end Reader

end Jack
