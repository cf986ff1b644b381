import Jack.Proofs.Tree.Parts

/-!
Streams in any use: tokens looked at and taken, levels entered and left, and parts read, with
success or without. Whatever is done, a stream stays within its tokens and within the limit.
-/

namespace Jack

/-! ### Places in the tokens -/

namespace Cursor

variable {c c₁ : Cursor}

namespace Onward

/-- What is ahead of the second cursor comes behind what was taken on the way. -/
theorem exists_tokens (h : c.Onward c₁) :
    ∃ taken, c.tokens = taken ++ c₁.tokens ∧ ∀ t ∈ taken, t.kind ≠ .endOfSource := by
  obtain ⟨taken, hahead, htaken⟩ := h.exists_taken
  exact ⟨taken, by rw [tokens, tokens, hahead, h.last, List.append_assoc], htaken⟩

/-- There is no way on from an end of source. -/
theorem eq_of_end (h : c.Onward c₁) (hend : c.current.kind = .endOfSource) : c₁ = c := by
  obtain ⟨source, ahead, last⟩ := c
  obtain ⟨source₁, ahead₁, last₁⟩ := c₁
  obtain ⟨rfl, rfl, taken, hahead, htaken⟩ := h
  cases taken with
  | nil => exact congrArg (Cursor.mk source₁ · last₁) hahead.symm
  | cons t ts =>
    have hcurrent : (⟨source₁, ahead, last₁⟩ : Cursor).current = t := by
      rw [current, peek, hahead]
      rfl
    exact absurd (hcurrent ▸ hend) (htaken t List.mem_cons_self)

end Onward

end Cursor

namespace Stream

variable {s s' s₁ : Stream}

/-- The second stream is further on in the same tokens, or at the same one, and is not too deep. -/
structure Leads (s s' : Stream) : Prop where
  tokens : s'.tokens = s.tokens
  onward : s.cursor.Onward s'.cursor
  depth_le : s'.depth ≤ maxDepth

namespace Leads

theorem trans (h : s.Leads s₁) (h₁ : s₁.Leads s') : s.Leads s' :=
  ⟨h₁.tokens.trans h.tokens, h.onward.trans h₁.onward, h₁.depth_le⟩

theorem position_le (h : s.Leads s') : s.position ≤ s'.position := by
  obtain ⟨taken, htokens, -⟩ := h.onward.exists_tokens
  have hlength := congrArg List.length htokens
  rw [List.length_append] at hlength
  rw [position, position, h.tokens]
  omega

end Leads

/-! ### Looking ahead -/

/-- What can be done with a stream. -/
inductive Action where
  | peek (n : UInt64)
  | next
  | accept (kind : Kind)
  | expect (kind : Kind)
  | enter
  | leave
  | unexpected (hint : String)
  | parse (part : Part)

/-- The stream after an action. There is none after a part that needs text which the source does not
have. -/
def after (s : Stream) : Action → Option Stream
  | .peek _ | .unexpected _ => some s
  | .next => some s.next.2
  | .accept kind => some ((s.accept? kind).elim s Prod.snd)
  | .expect kind => some ((s.expect kind).toOption.elim s Prod.snd)
  | .enter => some (s.enter.toOption.getD s)
  | .leave => some s.leave
  | .parse part =>
    match s.read part.reader with
    | (.error (.unreadable _), _) => none
    | (_, s') => some s'

def run (s : Stream) : List Action → Option Stream
  | [] => some s
  | action :: actions => do (← s.after action).run actions

/-- Reading a part, with success or without, goes on within the tokens and the levels. -/
theorem read_leads (part : Part) (h : s.depth ≤ maxDepth) : s.Leads (s.read part.reader).2 := by
  have hdeepens := part.reader_deepens (Nat.le_refl (maxDepth - s.depth)) s.cursor
  rw [read_eq_settle]
  cases hread : part.counted (maxDepth - s.depth) s.cursor with
  | ok found => exact ⟨rfl, hdeepens.onward found.1 found.2 hread, h⟩
  | error halt =>
    obtain ⟨hcursor, hopened⟩ := hdeepens.halts halt hread
    have hdepth : s.depth + halt.opened ≤ maxDepth := by omega
    exact ⟨rfl, hcursor, hdepth⟩

/-- What can be relied on at a stream with these tokens. -/
structure Safe (source : String) (buffer : List Token) (s : Stream) : Prop where
  source : s.cursor.source = source
  tokens : s.tokens = buffer
  ahead : s.cursor.tokens = buffer.drop s.position
  position_le : s.position ≤ buffer.findIdx (·.kind = .endOfSource)
  peek_mem : ∀ n, s.peek n ∈ buffer
  peek : ∀ n, s.position + n.toNat < UInt64.size → s.peek n = s.cursor.peek n.toNat ∧
    buffer[min (s.position + n.toNat) (buffer.length - 1)]? = some (s.peek n)
  /-- A sum that is too large for a word gives a token behind the cursor, and never the last one. -/
  peek_behind : ∀ n, buffer.length ≤ UInt64.size → UInt64.size ≤ s.position + n.toNat →
    s.position + n.toNat - UInt64.size < s.position ∧
      buffer[s.position + n.toNat - UInt64.size]? = some (s.peek n) ∧
      (s.peek n).kind ≠ .endOfSource
  depth_le : s.depth ≤ maxDepth
  declines : ∀ kind, s.cursor.current.kind ≠ kind →
    s.accept? kind = none ∧ s.expect kind = .error (.mismatch s.cursor.current kind) ∧
      s.after (.accept kind) = some s ∧ s.after (.expect kind) = some s
  forward : ∀ action s', s.after action = some s' →
    s'.tokens = buffer ∧ s.position ≤ s'.position ∧
      (s.cursor.current.kind = .endOfSource → s'.cursor = s.cursor)

end Stream

end Jack
