import Jack.Proofs.Tree.Readers
import Jack.Proofs.Tree.Terminals

/-!
How readers run. `c.before xs` is the cursor that has the terminals `xs` ahead and stands at `c`
once they are read, and `Took` relates the two. The lemmas on single tokens and on repetition come
in pairs: what a reader has taken when it succeeds, and that it succeeds on what it could take.
-/

namespace Jack

/-- The value is what a reader makes of the token. -/
def Terminal.ReadAs (source : String) : Terminal → Prop
  | keyword _ _ => True
  | symbol _ _ => True
  | integer value span =>
    ∃ text, (⟨.integer, span⟩ : Token).text? source = some text ∧ wordValue? text = some value
  | string value span => (⟨.string, span⟩ : Token).text? source = some value
  | identifier name span => (⟨.identifier, span⟩ : Token).text? source = some name

theorem Terminal.kind_ne_endOfSource (x : Terminal) : x.token.kind ≠ .endOfSource := by
  cases x <;> simp [token]

namespace Cursor

/-- The cursor in front of `xs`, behind which comes `c`. -/
def before (c : Cursor) (xs : List Terminal) : Cursor :=
  { c with ahead := xs.map Terminal.token ++ c.ahead }

/-- The last token is an end of source, as that of every cursor over tokens is. -/
def Closed (c : Cursor) : Prop := c.last.kind = .endOfSource

@[simp] theorem before_nil (c : Cursor) : c.before [] = c := rfl

@[simp] theorem before_append (c : Cursor) (xs ys : List Terminal) :
    c.before (xs ++ ys) = (c.before ys).before xs := by simp [before]

@[simp] theorem source_before (c : Cursor) (xs : List Terminal) :
    (c.before xs).source = c.source := rfl

@[simp] theorem last_before (c : Cursor) (xs : List Terminal) : (c.before xs).last = c.last := rfl

@[simp] theorem current_before_cons (c : Cursor) (x : Terminal) (xs : List Terminal) :
    (c.before (x :: xs)).current = x.token := rfl

@[simp] theorem peek_before_cons (c : Cursor) (x : Terminal) (xs : List Terminal) :
    (c.before (x :: xs)).peek 1 = (c.before xs).current := by
  simp [before, peek, current]

@[simp] theorem advance_before_cons (c : Cursor) (x : Terminal) (xs : List Terminal) :
    (c.before (x :: xs)).advance = c.before xs := by
  simp [before, advance, x.kind_ne_endOfSource]

@[simp] theorem accept?_before_cons (c : Cursor) (x : Terminal) (xs : List Terminal) :
    (c.before (x :: xs)).accept? x.token.kind = some (x.token, c.before xs) := by
  simp [accept?]

@[simp] theorem source_advance (c : Cursor) : c.advance.source = c.source := by
  simp only [advance]
  split
  · rfl
  · split <;> rfl

/-- The current token of a closed cursor, if it does not end the source, is the next one ahead. -/
theorem eq_before_advance {c : Cursor} (hc : c.Closed) {x : Terminal}
    (hx : c.current = x.token) : c = c.advance.before [x] := by
  obtain ⟨source, ahead, last⟩ := c
  cases ahead with
  | nil =>
    have hlast : last.kind = .endOfSource := hc
    have hx' : last = x.token := hx
    exact absurd (hx' ▸ hlast) x.kind_ne_endOfSource
  | cons t ts =>
    have ht : t = x.token := hx
    subst ht
    simp [advance, before, x.kind_ne_endOfSource]

end Cursor

/-- From `c` a reader gets to `c'` over the terminals `xs`. -/
structure Took (c : Cursor) (xs : List Terminal) (c' : Cursor) : Prop where
  eq_before : c = c'.before xs
  readAs : ∀ x ∈ xs, x.ReadAs c'.source
  closed : c'.Closed

namespace Took

theorem refl {c : Cursor} (hc : c.Closed) : Took c [] c := ⟨rfl, by simp, hc⟩

theorem trans {c c₁ c₂ : Cursor} {xs ys : List Terminal} (h₁ : Took c xs c₁) (h₂ : Took c₁ ys c₂) :
    Took c (xs ++ ys) c₂ := by
  have hsource : c₁.source = c₂.source := by rw [h₂.eq_before, Cursor.source_before]
  refine ⟨?_, ?_, h₂.closed⟩
  · rw [Cursor.before_append, ← h₂.eq_before, ← h₁.eq_before]
  · intro x hx
    rcases List.mem_append.1 hx with hx | hx
    · exact hsource ▸ h₁.readAs x hx
    · exact h₂.readAs x hx

theorem cons {c c₁ c₂ : Cursor} {x : Terminal} {xs : List Terminal} (h₁ : Took c [x] c₁)
    (h₂ : Took c₁ xs c₂) : Took c (x :: xs) c₂ := h₁.trans h₂

theorem of_current {c : Cursor} (hc : c.Closed) {x : Terminal} (hx : c.current = x.token)
    (hread : x.ReadAs c.source) : Took c [x] c.advance := by
  have heq := Cursor.eq_before_advance hc hx
  refine ⟨heq, ?_, ?_⟩
  · have hsource : (c.advance.before [x]).source = c.source := congrArg Cursor.source heq.symm
    rw [Cursor.source_before] at hsource
    simpa [hsource] using hread
  · have hlast : (c.advance.before [x]).last = c.last := congrArg Cursor.last heq.symm
    rw [Cursor.last_before] at hlast
    simpa [Cursor.Closed, hlast] using hc

end Took

namespace Reader

variable {α β : Type}

/-! ### Results -/

theorem bind_apply (x : Reader α) (f : α → Reader β) (c : Cursor) :
    (x >>= f) c = match x c with
      | .ok (a, c') => f a c'
      | .error halt => .error halt := by
  cases h : x c <;> simp [bind, StateT.bind, Except.bind, h]

theorem bind_of_ok {x : Reader α} {f : α → Reader β} {c c' : Cursor} {a : α}
    {result : Except Halt (β × Cursor)} (hx : x c = .ok (a, c')) (hf : f a c' = result) :
    (x >>= f) c = result := by
  rw [bind_apply, hx]
  exact hf

@[simp] theorem pure_apply (a : α) (c : Cursor) : (pure a : Reader α) c = .ok (a, c) := rfl

theorem map_of_ok {x : Reader α} {f : α → β} {c c' : Cursor} {a : α} (h : x c = .ok (a, c')) :
    (f <$> x) c = .ok (f a, c') := by
  simp [Functor.map, StateT.map, h, bind, Except.bind, pure, Except.pure]

/-- Every result of the reader at `c` has the property. -/
def Gives (r : Reader α) (c : Cursor) (post : α → Cursor → Prop) : Prop :=
  ∀ a c', r c = .ok (a, c') → post a c'

theorem Gives.bind {x : Reader α} {f : α → Reader β} {c : Cursor} {mid : α → Cursor → Prop}
    {post : β → Cursor → Prop} (hx : Gives x c mid)
    (hf : ∀ a c', mid a c' → Gives (f a) c' post) : Gives (x >>= f) c post := by
  intro b c₂ h
  rw [bind_apply] at h
  cases hr : x c with
  | error halt => simp [hr] at h
  | ok result =>
    obtain ⟨a, c₁⟩ := result
    rw [hr] at h
    exact hf a c₁ (hx a c₁ hr) b c₂ h

theorem Gives.pure {a : α} {c : Cursor} {post : α → Cursor → Prop} (h : post a c) :
    Gives (pure a) c post := by
  intro b c' hb
  simp only [pure_apply, Except.ok.injEq, Prod.mk.injEq] at hb
  obtain ⟨rfl, rfl⟩ := hb
  exact h

theorem Gives.map {x : Reader α} {f : α → β} {c : Cursor} {post : β → Cursor → Prop}
    (hx : Gives x c fun a => post (f a)) : Gives (f <$> x) c post := by
  intro b c' h
  cases hr : x c with
  | error halt => simp [Functor.map, StateT.map, hr, Bind.bind, Except.bind] at h
  | ok result =>
    obtain ⟨a, c₁⟩ := result
    rw [map_of_ok hr] at h
    simp only [Except.ok.injEq, Prod.mk.injEq] at h
    obtain ⟨rfl, rfl⟩ := h
    exact hx a c₁ hr

theorem Gives.fail {error : Token → SyntaxError} {c : Cursor} {post : α → Cursor → Prop} :
    Gives (Reader.fail error) c post := by
  intro a c' h
  simp [Reader.fail] at h

theorem Gives.unexpected {hint : String} {c : Cursor} {post : α → Cursor → Prop} :
    Gives (Reader.unexpected hint) c post := by
  rw [unexpected_eq]
  exact Gives.fail

theorem Gives.mono {r : Reader α} {c : Cursor} {mid post : α → Cursor → Prop} (h : Gives r c mid)
    (himp : ∀ a c', mid a c' → post a c') : Gives r c post :=
  fun a c' hr => himp a c' (h a c' hr)

theorem Gives.bindCurrent {f : Token → Reader α} {c : Cursor} {post : α → Cursor → Prop}
    (h : Gives (f c.current) c post) : Gives (current >>= f) c post := h

theorem Gives.bindGet {f : Cursor → Reader α} {c : Cursor} {post : α → Cursor → Prop}
    (h : Gives (f c) c post) : Gives (get >>= f) c post := h

/-! ### Single tokens -/

/-- The current token, taken as it is, is the keyword that was seen. -/
theorem Gives.takeKeyword {c : Cursor} (hc : c.Closed) {k : Keyword}
    (hk : c.current.kind = .keyword k) :
    Gives take c fun span c' => Took c [.keyword k span] c' := by
  intro span c' h
  simp only [take, Except.ok.injEq, Prod.mk.injEq] at h
  obtain ⟨rfl, rfl⟩ := h
  refine .of_current hc ?_ trivial
  rw [Terminal.token, ← hk]

theorem Gives.takeSymbol {c : Cursor} (hc : c.Closed) {s : Symbol}
    (hs : c.current.kind = .symbol s) :
    Gives take c fun span c' => Took c [.symbol s span] c' := by
  intro span c' h
  simp only [take, Except.ok.injEq, Prod.mk.injEq] at h
  obtain ⟨rfl, rfl⟩ := h
  refine .of_current hc ?_ trivial
  rw [Terminal.token, ← hs]

theorem take_before_cons (c : Cursor) (x : Terminal) (xs : List Terminal) :
    take (c.before (x :: xs)) = .ok (x.token.span, c.before xs) := by
  simp [take]

/-- What `expect` takes is the current token, of the kind that was expected. -/
theorem Gives.expect {c : Cursor} {kind : Kind} :
    Gives (expect kind) c fun span c' => c.current = ⟨kind, span⟩ ∧ c' = c.advance := by
  intro span c' h
  simp only [Reader.expect, Cursor.accept?] at h
  split at h
  · rename_i token after haccept
    split at haccept
    · rename_i hkind
      simp only [Option.some.injEq, Prod.mk.injEq] at haccept
      obtain ⟨rfl, rfl⟩ := haccept
      simp only [Except.ok.injEq, Prod.mk.injEq] at h
      obtain ⟨rfl, rfl⟩ := h
      exact ⟨by rw [← hkind], rfl⟩
    · simp at haccept
  · simp at h

theorem Gives.expectKeyword {c : Cursor} (hc : c.Closed) (k : Keyword) :
    Gives (Reader.expect (.keyword k)) c fun span c' => Took c [.keyword k span] c' :=
  Gives.expect.mono fun span _ h => h.2 ▸ .of_current hc (x := .keyword k span) h.1 trivial

theorem Gives.expectSymbol {c : Cursor} (hc : c.Closed) (s : Symbol) :
    Gives (Reader.expect (.symbol s)) c fun span c' => Took c [.symbol s span] c' :=
  Gives.expect.mono fun span _ h => h.2 ▸ .of_current hc (x := .symbol s span) h.1 trivial

@[simp] theorem expectKeyword_before (c : Cursor) (k : Keyword) (span : Span)
    (xs : List Terminal) :
    Reader.expect (.keyword k) (c.before (.keyword k span :: xs)) = .ok (span, c.before xs) := by
  have h := c.accept?_before_cons (.keyword k span) xs
  simp only [Terminal.token] at h
  simp [Reader.expect, h]

@[simp] theorem expectSymbol_before (c : Cursor) (s : Symbol) (span : Span) (xs : List Terminal) :
    Reader.expect (.symbol s) (c.before (.symbol s span :: xs)) = .ok (span, c.before xs) := by
  have h := c.accept?_before_cons (.symbol s span) xs
  simp only [Terminal.token] at h
  simp [Reader.expect, h]

/-- A reader that may decline takes a token of the kind, or nothing when there is none. -/
theorem Gives.accept? {c : Cursor} {kind : Kind} :
    Gives (accept? kind) c fun found c' =>
      match found with
      | some span => c.current = ⟨kind, span⟩ ∧ c' = c.advance
      | none => c.current.kind ≠ kind ∧ c' = c := by
  intro found c' h
  simp only [Reader.accept?, Cursor.accept?] at h
  by_cases hkind : c.current.kind = kind
  · simp only [hkind, if_true, Except.ok.injEq, Prod.mk.injEq] at h
    obtain ⟨rfl, rfl⟩ := h
    exact ⟨by rw [← hkind], rfl⟩
  · simp only [hkind, if_false, Except.ok.injEq, Prod.mk.injEq] at h
    obtain ⟨rfl, rfl⟩ := h
    exact ⟨hkind, rfl⟩

theorem accept?_of_kind_ne {c : Cursor} {kind : Kind} (h : c.current.kind ≠ kind) :
    accept? kind c = .ok (none, c) := by
  simp [accept?, Cursor.accept?, h]

@[simp] theorem acceptKeyword?_before (c : Cursor) (k : Keyword) (span : Span)
    (xs : List Terminal) :
    Reader.accept? (.keyword k) (c.before (.keyword k span :: xs)) =
      .ok (some span, c.before xs) := by
  have h := c.accept?_before_cons (.keyword k span) xs
  simp only [Terminal.token] at h
  simp [Reader.accept?, h]

@[simp] theorem acceptSymbol?_before (c : Cursor) (s : Symbol) (span : Span) (xs : List Terminal) :
    Reader.accept? (.symbol s) (c.before (.symbol s span :: xs)) =
      .ok (some span, c.before xs) := by
  have h := c.accept?_before_cons (.symbol s span) xs
  simp only [Terminal.token] at h
  simp [Reader.accept?, h]

theorem Gives.textOf {c : Cursor} {token : Token} :
    Gives (textOf token) c fun text c' => token.text? c.source = some text ∧ c' = c := by
  intro text c' h
  simp only [Reader.textOf] at h
  split at h
  · rename_i text' htext
    simp only [Except.ok.injEq, Prod.mk.injEq] at h
    obtain ⟨rfl, rfl⟩ := h
    exact ⟨htext, rfl⟩
  · simp at h

theorem textOf_of_eq_some {c : Cursor} {token : Token} {text : String}
    (h : token.text? c.source = some text) : textOf token c = .ok (text, c) := by
  simp [textOf, h]

/-! ### Repetition -/

/-- A reader that takes the terminals of its result, which has the property. -/
def Takes (r : Reader α) (f : α → List Terminal) (good : α → Prop) : Prop :=
  ∀ c, c.Closed → Gives r c fun a c' => Took c (f a) c' ∧ good a

/-- A reader that takes the terminals of its result, or declines and takes nothing. -/
def Offers (item : Reader (Option α)) (f : α → List Terminal) (good : α → Prop) : Prop :=
  ∀ c, c.Closed → Gives item c fun found c' =>
    match found with
    | some a => Took c (f a) c' ∧ good a
    | none => c' = c

theorem Takes.offers {r : Reader α} {f : α → List Terminal} {good : α → Prop}
    (h : Takes r f good) : Offers (some <$> r) f good := fun c hc => Gives.map (h c hc)

theorem manyFrom_took {item : Reader (Option α)} {f : α → List Terminal} {good : α → Prop}
    (hitem : Offers item f good) (seen : List α) (rounds : List Token) {c c' : Cursor}
    (hc : c.Closed) {all : List α} (h : manyFrom item seen rounds c = .ok (all, c')) :
    ∃ found, all = seen.reverse ++ found ∧ Took c (found.flatMap f) c' ∧ ∀ a ∈ found, good a := by
  induction rounds generalizing seen c with
  | nil =>
    simp only [manyFrom, Except.ok.injEq, Prod.mk.injEq] at h
    obtain ⟨rfl, rfl⟩ := h
    exact ⟨[], by simp, .refl hc, by simp⟩
  | cons t rounds ih =>
    simp only [manyFrom] at h
    cases hr : item c with
    | error halt => simp [hr] at h
    | ok result =>
      obtain ⟨found, c₁⟩ := result
      have htook := hitem c hc found c₁ hr
      cases found with
      | none =>
        simp only [hr, Except.ok.injEq, Prod.mk.injEq] at h
        obtain ⟨rfl, rfl⟩ := h
        obtain rfl : c₁ = c := htook
        exact ⟨[], by simp, .refl hc, by simp⟩
      | some a =>
        simp only [hr] at h
        obtain ⟨rest, rfl, hrest, hgood⟩ := ih (a :: seen) htook.1.closed h
        refine ⟨a :: rest, by simp, htook.1.trans hrest, ?_⟩
        exact List.forall_mem_cons.2 ⟨htook.2, hgood⟩

theorem Offers.many {item : Reader (Option α)} {f : α → List Terminal} {good : α → Prop}
    (hitem : Offers item f good) :
    Takes (many item) (fun as => as.flatMap f) fun as => ∀ a ∈ as, good a := by
  intro c hc as c' h
  obtain ⟨found, rfl, htook, hgood⟩ := manyFrom_took hitem [] c.ahead hc h
  exact ⟨by simpa using htook, by simpa using hgood⟩

theorem Offers.nextItem {item : Reader (Option α)} {f : α → List Terminal} {good : α → Prop}
    (hitem : Offers item f good) :
    Offers (nextItem item) (commaTerminals f) fun x => good x.2 := by
  intro c hc
  refine Gives.accept?.bind fun comma c₁ h₁ => ?_
  cases comma with
  | none => exact .pure h₁.2
  | some comma =>
    have htook : Took c [.symbol .comma comma] c₁ := h₁.2 ▸ .of_current hc h₁.1 trivial
    refine (hitem c₁ htook.closed).bind fun found c₂ h₂ => ?_
    cases found with
    | none => exact .unexpected
    | some a => exact .pure ⟨htook.cons h₂.1, h₂.2⟩

theorem Offers.separated? {item : Reader (Option α)} {f : α → List Terminal} {good : α → Prop}
    (hitem : Offers item f good) :
    Offers (separated? item) (Separated.terminals f) fun xs => ∀ a ∈ xs.toList, good a := by
  intro c hc
  refine (hitem c hc).bind fun found c₁ h₁ => ?_
  cases found with
  | none => exact .pure h₁
  | some head =>
    refine (hitem.nextItem.many c₁ h₁.1.closed).bind fun tail c₂ h₂ => ?_
    refine .pure ⟨h₁.1.trans h₂.1, ?_⟩
    simp only [Separated.toList, List.forall_mem_cons, List.forall_mem_map]
    exact ⟨h₁.2, h₂.2⟩

theorem Offers.separated {item : Reader (Option α)} {f : α → List Terminal} {good : α → Prop}
    (hitem : Offers item f good) :
    Takes (separated item) (Separated.terminals f) fun xs => ∀ a ∈ xs.toList, good a := by
  intro c hc
  refine (hitem.separated? c hc).bind fun found c₁ h₁ => ?_
  cases found with
  | none => exact .unexpected
  | some xs => exact .pure h₁

/-- The terminals start with one of such a kind. -/
def Starts (next : Kind → Prop) (xs : List Terminal) : Prop :=
  ∃ x rest, xs = x :: rest ∧ next x.token.kind

theorem Starts.cons {next : Kind → Prop} {x : Terminal} {xs : List Terminal}
    (h : next x.token.kind) : Starts next (x :: xs) := ⟨x, xs, rfl, h⟩

theorem Starts.imp {next next' : Kind → Prop} {xs : List Terminal} (h : Starts next xs)
    (himp : ∀ kind, next kind → next' kind) : Starts next' xs := by
  obtain ⟨x, rest, rfl, hx⟩ := h
  exact .cons (himp _ hx)

theorem Starts.append {next : Kind → Prop} {xs ys : List Terminal} (h : Starts next xs) :
    Starts next (xs ++ ys) := by
  obtain ⟨x, rest, rfl, hx⟩ := h
  exact .cons hx

theorem Starts.current {next : Kind → Prop} {xs : List Terminal} (h : Starts next xs) (c : Cursor) :
    next (c.before xs).current.kind := by
  obtain ⟨x, rest, rfl, hx⟩ := h
  exact hx

/-- The kind of the next token, in front of items and what follows them. -/
theorem next_before_flatMap {f : α → List Terminal} {next : Kind → Prop} {c : Cursor} {as : List α}
    (hstart : ∀ a ∈ as, Starts next (f a)) (hnext : next c.current.kind) :
    next (c.before (as.flatMap f)).current.kind := by
  cases as with
  | nil => exact hnext
  | cons a as => exact (hstart a (by simp)).append.current c

/-- The reader gets over the terminals of everything with the property, in front of a token of the
kinds `next`. -/
def Covers (r : Reader β) (f : α → List Terminal) (result : α → β) (good : α → Prop)
    (next : Kind → Prop) : Prop :=
  ∀ (c : Cursor) (a : α), good a → (∀ x ∈ f a, x.ReadAs c.source) → next c.current.kind →
    r (c.before (f a)) = .ok (result a, c)

theorem Covers.append {r : Reader β} {f : α → List Terminal} {result : α → β} {good : α → Prop}
    {next : Kind → Prop} (h : Covers r f result good next) {c : Cursor} {a : α} (hgood : good a)
    (hread : ∀ x ∈ f a, x.ReadAs c.source) {xs : List Terminal}
    (hnext : next (c.before xs).current.kind) :
    r (c.before (f a ++ xs)) = .ok (result a, c.before xs) := by
  rw [Cursor.before_append]
  exact h (c.before xs) a hgood hread hnext

theorem Covers.manyFrom {item : Reader (Option α)} {f : α → List Terminal} {good : α → Prop}
    {next : Kind → Prop} (hitem : Covers item f some good next) {c : Cursor} {as : List α}
    (hgood : ∀ a ∈ as, good a) (hread : ∀ x ∈ as.flatMap f, x.ReadAs c.source)
    (hstart : ∀ a ∈ as, Starts next (f a)) (hnext : next c.current.kind)
    (hend : item c = .ok (none, c)) (seen : List α) (rounds : List Token)
    (hrounds : as.length ≤ rounds.length) :
    manyFrom item seen rounds (c.before (as.flatMap f)) = .ok (seen.reverse ++ as, c) := by
  induction as generalizing seen rounds with
  | nil => cases rounds <;> simp [Reader.manyFrom, hend]
  | cons a as ih =>
    obtain ⟨t, rounds, rfl⟩ := List.exists_cons_of_length_pos (Nat.lt_of_lt_of_le (by simp) hrounds)
    rw [List.flatMap_cons, List.forall_mem_append] at hread
    rw [List.forall_mem_cons] at hgood hstart
    have hhead := hitem (c.before (as.flatMap f)) a hgood.1 hread.1
      (next_before_flatMap hstart.2 hnext)
    have htail := ih hgood.2 hread.2 hstart.2 (a :: seen) rounds (by simpa using hrounds)
    simp only [List.flatMap_cons, Cursor.before_append, Reader.manyFrom, hhead, htail]
    simp

theorem length_le_of_starts {f : α → List Terminal} {next : Kind → Prop} {as : List α}
    (hstart : ∀ a ∈ as, Starts next (f a)) : as.length ≤ (as.flatMap f).length := by
  induction as with
  | nil => simp
  | cons a as ih =>
    rw [List.forall_mem_cons] at hstart
    obtain ⟨x, rest, hx, -⟩ := hstart.1
    have hrest := ih hstart.2
    simp only [List.flatMap_cons, List.length_append, List.length_cons, hx]
    omega

theorem Covers.many {item : Reader (Option α)} {f : α → List Terminal} {good : α → Prop}
    {next : Kind → Prop} (hitem : Covers item f some good next) {c : Cursor} {as : List α}
    (hgood : ∀ a ∈ as, good a) (hread : ∀ x ∈ as.flatMap f, x.ReadAs c.source)
    (hstart : ∀ a ∈ as, Starts next (f a)) (hnext : next c.current.kind)
    (hend : item c = .ok (none, c)) :
    many item (c.before (as.flatMap f)) = .ok (as, c) := by
  have hlength : as.length ≤ (c.before (as.flatMap f)).ahead.length := by
    refine Nat.le_trans (length_le_of_starts hstart) ?_
    simp [Cursor.before]
  simpa [Reader.many] using hitem.manyFrom hgood hread hstart hnext hend [] _ hlength

theorem Covers.manyAppend {item : Reader (Option α)} {f : α → List Terminal} {good : α → Prop}
    {next : Kind → Prop} (hitem : Covers item f some good next) {c : Cursor} {as : List α}
    (hgood : ∀ a ∈ as, good a) (hread : ∀ x ∈ as.flatMap f, x.ReadAs c.source)
    (hstart : ∀ a ∈ as, Starts next (f a)) {xs : List Terminal}
    (hnext : next (c.before xs).current.kind)
    (hend : item (c.before xs) = .ok (none, c.before xs)) :
    Reader.many item (c.before (as.flatMap f ++ xs)) = .ok (as, c.before xs) := by
  rw [Cursor.before_append]
  exact hitem.many (c := c.before xs) hgood hread hstart hnext hend

theorem Covers.nextItem {item : Reader (Option α)} {f : α → List Terminal} {good : α → Prop}
    {next : Kind → Prop} (hitem : Covers item f some good next) :
    Covers (nextItem item) (commaTerminals f) some (fun x => good x.2) next := by
  rintro c ⟨comma, a⟩ hgood hread hnext
  rw [commaTerminals, List.forall_mem_cons] at hread
  refine bind_of_ok (acceptSymbol?_before ..) ?_
  exact bind_of_ok (hitem c a hgood hread.2 hnext) rfl

theorem Covers.separated? {item : Reader (Option α)} {f : α → List Terminal} {good : α → Prop}
    {next : Kind → Prop} (hitem : Covers item f some good next) (hcomma : next (.symbol .comma)) :
    Covers (separated? item) (Separated.terminals f) some (fun xs => ∀ a ∈ xs.toList, good a)
      fun kind => next kind ∧ kind ≠ .symbol .comma := by
  rintro c ⟨head, tail⟩ hgood hread ⟨hnext, hend⟩
  rw [Separated.terminals, List.forall_mem_append] at hread
  rw [Separated.toList, List.forall_mem_cons, List.forall_mem_map] at hgood
  have hstart : ∀ x ∈ tail, Starts next (commaTerminals f x) := fun x _ => .cons hcomma
  have hhead := hitem (c.before (tail.flatMap (commaTerminals f))) head hgood.1 hread.1
    (next_before_flatMap hstart hnext)
  have htail := hitem.nextItem.many hgood.2 hread.2 hstart hnext
    (bind_of_ok (accept?_of_kind_ne hend) rfl)
  rw [Separated.terminals, Cursor.before_append]
  exact bind_of_ok hhead (bind_of_ok htail rfl)

end Reader

end Jack
