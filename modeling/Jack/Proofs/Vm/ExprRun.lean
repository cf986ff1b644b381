import Jack.Proofs.Vm.Code
import Jack.Proofs.Vm.Meaning

/-!
The code of an expression computes its value. It has no jumps, so it runs the same wherever it
stands; each part of it turns the operands on top of the stack into others and leaves those below,
and the frame, alone.
-/

namespace Jack

/-- The block turns the operands `vs` on top of the stack into `ws` and the memory `g` into `g'`. -/
def Turns (calls : Calls) (frame : Frame) (block : List Instr) (vs : List Word) (g : Memory Temp)
    (ws : List Word) (g' : Memory Temp) : Prop :=
  ∀ that stack, ∃ that', Machine.runBlock calls block ⟨frame, g, that, vs ++ stack⟩ =
    some ⟨frame, g', that', ws ++ stack⟩

namespace Turns

variable {calls : Calls} {frame : Frame} {block block₁ block₂ : List Instr} {us vs ws : List Word}
  {g g₁ g₂ : Memory Temp}

theorem nil : Turns calls frame [] vs g vs g := fun that _ => ⟨that, rfl⟩

theorem trans (h₁ : Turns calls frame block₁ vs g us g₁)
    (h₂ : Turns calls frame block₂ us g₁ ws g₂) :
    Turns calls frame (block₁ ++ block₂) vs g ws g₂ := by
  intro that stack
  obtain ⟨that₁, hrun₁⟩ := h₁ that stack
  obtain ⟨that₂, hrun₂⟩ := h₂ that₁ stack
  exact ⟨that₂, by rw [Machine.runBlock_append, hrun₁, Option.bind_some, hrun₂]⟩

/-- Operands below those that a block is about stay as they are. -/
theorem above (h : Turns calls frame block vs g ws g₁) (us : List Word) :
    Turns calls frame block (vs ++ us) g (ws ++ us) g₁ := by
  intro that stack
  obtain ⟨that', hrun⟩ := h that (us ++ stack)
  exact ⟨that', by simpa using hrun⟩

theorem constant (n : Nat) : Turns calls frame [.push .constant n] [] g [.ofNat 16 n] g :=
  fun that _ => ⟨that, rfl⟩

theorem ofVariable (v : Variable) : Turns calls frame [v.push] [] g [v.value frame g] g := by
  intro that stack
  refine ⟨that, ?_⟩
  obtain ⟨name, type, kind, index⟩ := v
  cases kind <;> rfl

/-- A method finds its object in its first argument, where it is expected to be. -/
theorem this {ctx : Context} (hthis : frame.HoldsThis ctx.kind) :
    Turns calls frame [ctx.this] [] g [frame.this] g := by
  intro that stack
  refine ⟨that, ?_⟩
  obtain ⟨scope, kind⟩ := ctx
  cases kind with
  | method => simp [Context.this, Machine.runBlock, Machine.exec?, Machine.read, ← hthis rfl]
  | constructor => rfl
  | function => rfl

theorem op {o : ArithOp} (h : ∀ stack, o.onStack (vs ++ stack) = some (ws ++ stack)) :
    Turns calls frame [.op o] vs g ws g := by
  intro that stack
  exact ⟨that, by simp [Machine.runBlock, Machine.exec?, h]⟩

theorem call (name : String) (args : List Word) (g : Memory Temp) :
    Turns calls frame [.call name args.length] args.reverse g
      [(calls.answer name args g).1] (calls.answer name args g).2 := by
  intro that stack
  refine ⟨calls.that name args g that, ?_⟩
  simp [Machine.runBlock, Machine.exec?]

theorem element (address : Word) :
    Turns calls frame [.pop .pointer 1, .push .that 0] [address] g [g.heap address] g := by
  intro that stack
  refine ⟨address, ?_⟩
  simp [Machine.runBlock, Machine.exec?, Machine.write, Machine.read]

theorem unaryOp (o : UnaryOp) (x : Word) :
    Turns calls frame [o.instr] [x] g [o.meaning x] g := by
  cases o <;> exact op fun _ => rfl

theorem binaryOp (o : BinaryOp) (x y : Word) :
    Turns calls frame [o.instr] [y, x] g [(o.meaning calls.answer x y g).1]
      (o.meaning calls.answer x y g).2 := by
  cases o with
  | mul => exact call "Math.multiply" [x, y] g
  | div => exact call "Math.divide" [x, y] g
  | eq => exact op fun _ => by simp [ArithOp.onStack, BinaryOp.meaning]; rfl
  | _ => exact op fun _ => rfl

end Turns

theorem Meaning.length_moreArgs {τ : Type} (scope : Scope) (answer : Answers τ) (frame : Frame)
    (as : MoreArgs) (n : Nat) (g : Memory τ) :
    as.lengthFrom n = (Meaning.moreArgs scope answer frame as g).1.length + n := by
  cases as with
  | nil => simp [MoreArgs.lengthFrom, Meaning.moreArgs]
  | cons comma e rest =>
    have hrest := length_moreArgs scope answer frame rest (n + 1) (expr scope answer frame e g).2
    rw [MoreArgs.lengthFrom, hrest]
    simp only [Meaning.moreArgs, List.length_cons]
    omega

theorem Meaning.length_args {τ : Type} (scope : Scope) (answer : Answers τ) (frame : Frame)
    (as : Args) (g : Memory τ) :
    as.length = (Meaning.args scope answer frame as g).1.length := by
  cases as with
  | none => rfl
  | some head tail => exact length_moreArgs scope answer frame tail 1 _

namespace Code

variable {calls : Calls} {ctx : Context} {frame : Frame}
  (hthis : frame.HoldsThis ctx.kind)

theorem push_turns (name : Ident) (g : Memory Temp) :
    Turns calls frame [push ctx name] [] g [ctx.scope.value frame g name.name] g := by
  cases hv : ctx.scope.lookup name.name with
  | none => simpa [push, Scope.value, hv] using Turns.constant 0
  | some v => simpa [push, Scope.value, hv] using Turns.ofVariable v

theorem characters_turns (cs : List Char) (r : Word × Memory Temp) :
    Turns calls frame (characters cs) [r.1] r.2
      [(cs.foldl (fun r c => calls.answer "String.appendChar" [r.1, .ofNat 16 c.toNat] r.2) r).1]
      (cs.foldl (fun r c => calls.answer "String.appendChar" [r.1, .ofNat 16 c.toNat] r.2)
        r).2 := by
  induction cs generalizing r with
  | nil => exact .nil
  | cons c cs ih =>
    have hpush : Turns calls frame [.push .constant c.toNat] [r.1] r.2
        [.ofNat 16 c.toNat, r.1] r.2 :=
      (Turns.constant c.toNat).above [r.1]
    exact (hpush.trans (.call "String.appendChar" [r.1, .ofNat 16 c.toNat] r.2)).trans (ih _)

theorem string_turns (value : String) (g : Memory Temp) :
    Turns calls frame (string value) [] g [(Meaning.string calls.answer value g).1]
      (Meaning.string calls.answer value g).2 := by
  have hnew : Turns calls frame [.push .constant value.length, .call "String.new" 1] [] g _ _ :=
    (Turns.constant value.length).trans (.call "String.new" [.ofNat 16 value.length] g)
  exact hnew.trans (characters_turns value.toList _)

include hthis in
theorem named_turns (value : NamedConstant) (g : Memory Temp) :
    Turns calls frame (named ctx value) [] g [value.meaning frame] g := by
  cases value with
  | true => exact (Turns.constant 1).trans (.op fun _ => rfl)
  | false => exact Turns.constant 0
  | null => exact Turns.constant 0
  | this => exact Turns.this hthis

include hthis in
/-- A receiver that makes an argument leaves it below the others. -/
theorem call_turns {recv : Option (Ident × Span)} {name : Ident} {left : Span} {as : Args}
    {right : Span} {g : Memory Temp}
    (hargs : Turns calls frame (args ctx as) [] g
      (Meaning.args ctx.scope calls.answer frame as g).1.reverse
      (Meaning.args ctx.scope calls.answer frame as g).2) :
    Turns calls frame (call ctx (.mk recv name left as right)) [] g
      [(Meaning.call ctx.scope calls.answer frame (.mk recv name left as right) g).1]
      (Meaning.call ctx.scope calls.answer frame (.mk recv name left as right) g).2 := by
  have hlength := Meaning.length_args ctx.scope calls.answer frame as g
  have hreceived (object : Word) (f : String) (push : Instr)
      (hpush : Turns calls frame [push] [] g [object] g) :
      Turns calls frame ([push] ++ args ctx as ++ [.call f (as.length + 1)]) [] g
        [(calls.answer f (object :: (Meaning.args ctx.scope calls.answer frame as g).1)
          (Meaning.args ctx.scope calls.answer frame as g).2).1]
        (calls.answer f (object :: (Meaning.args ctx.scope calls.answer frame as g).1)
          (Meaning.args ctx.scope calls.answer frame as g).2).2 := by
    refine (hpush.trans (hargs.above [object])).trans ?_
    rw [hlength]
    simpa using Turns.call f (object :: (Meaning.args ctx.scope calls.answer frame as g).1)
      (Meaning.args ctx.scope calls.answer frame as g).2
  cases recv with
  | none => exact hreceived frame.this _ _ (.this hthis)
  | some object =>
    cases hv : ctx.scope.lookup object.1.name with
    | some v =>
      simp only [call, receiver, Meaning.call, hv]
      exact hreceived (v.value frame g) _ _ (.ofVariable v)
    | none =>
      simp only [call, receiver, Meaning.call, hv]
      refine hargs.trans ?_
      rw [hlength]
      exact Turns.call _ _ _

mutual

theorem expr_turns (hthis : frame.HoldsThis ctx.kind) :
    ∀ (e : Expr) (g : Memory Temp),
    Turns calls frame (expr ctx e) [] g [(Meaning.expr ctx.scope calls.answer frame e g).1]
      (Meaning.expr ctx.scope calls.answer frame e g).2
  | .mk head tail, g => (term_turns hthis head g).trans (opTerms_turns hthis tail _)

theorem opTerms_turns (hthis : frame.HoldsThis ctx.kind) :
    ∀ (xs : OpTerms) (r : Word × Memory Temp),
    Turns calls frame (opTerms ctx xs) [r.1] r.2
      [(Meaning.opTerms ctx.scope calls.answer frame xs r).1]
      (Meaning.opTerms ctx.scope calls.answer frame xs r).2
  | .nil, r => .nil
  | .cons op _ t rest, r => by
    have hterm := (term_turns hthis t r.2).above [r.1]
    have hop := (hterm.trans (.binaryOp op r.1 _)).trans (opTerms_turns hthis rest _)
    simpa [opTerms, Meaning.opTerms] using hop

theorem term_turns (hthis : frame.HoldsThis ctx.kind) :
    ∀ (t : Term) (g : Memory Temp),
    Turns calls frame (term ctx t) [] g [(Meaning.term ctx.scope calls.answer frame t g).1]
      (Meaning.term ctx.scope calls.answer frame t g).2
  | .integer value _, g => .constant value
  | .string value _, g => string_turns value g
  | .named value _, g => named_turns hthis value g
  | .paren _ e _, g => expr_turns hthis e g
  | .unary op _ t, g => (term_turns hthis t g).trans (.unaryOp op _)
  | .var name, g => push_turns name g
  | .element name index, g => by
    have haddress : Turns calls frame (push ctx name :: offset ctx index) [] g _ _ :=
      (push_turns name g).trans (offset_turns hthis index _ g)
    simpa [term, Meaning.term] using haddress.trans (.element _)
  | .call (.mk recv name left as right), g => call_turns hthis (args_turns hthis as g)

theorem offset_turns (hthis : frame.HoldsThis ctx.kind) :
    ∀ (i : Index) (base : Word) (g : Memory Temp),
    Turns calls frame (offset ctx i) [base] g
      [base + (Meaning.index ctx.scope calls.answer frame i g).1]
      (Meaning.index ctx.scope calls.answer frame i g).2
  | .mk _ e _, base, g => ((expr_turns hthis e g).above [base]).trans (.op fun _ => rfl)

theorem args_turns (hthis : frame.HoldsThis ctx.kind) :
    ∀ (as : Args) (g : Memory Temp),
    Turns calls frame (args ctx as) [] g
      (Meaning.args ctx.scope calls.answer frame as g).1.reverse
      (Meaning.args ctx.scope calls.answer frame as g).2
  | .none, g => .nil
  | .some head tail, g => by
    have hmore := (expr_turns hthis head g).trans (moreArgs_turns hthis tail [_] _)
    simpa [args, Meaning.args] using hmore

theorem moreArgs_turns (hthis : frame.HoldsThis ctx.kind) :
    ∀ (as : MoreArgs) (vs : List Word) (g : Memory Temp),
    Turns calls frame (moreArgs ctx as) vs g
      ((Meaning.moreArgs ctx.scope calls.answer frame as g).1.reverse ++ vs)
      (Meaning.moreArgs ctx.scope calls.answer frame as g).2
  | .nil, vs, g => .nil
  | .cons _ e rest, vs, g => by
    have hmore := ((expr_turns hthis e g).above vs).trans (moreArgs_turns hthis rest (_ :: vs) _)
    simpa [moreArgs, Meaning.moreArgs] using hmore

end

end Code

/-- What is emitted for an expression, wherever it stands, runs from its first instruction to its
end, leaves the frame and the stack as they were but for the value on top, and changes the memory as
the expression does. -/
theorem Context.expr_computes_value {ctx : Context} {e : Expr} {out out' : Output}
    (h : ctx.expr e out = .ok out') :
    ∃ block, out'.code.toList = out.code.toList ++ block ∧
      ∀ (calls : Calls) (m : Machine) (front back : List Instr), m.frame.HoldsThis ctx.kind →
        ∃ that, Reaches calls (front ++ block ++ back) ⟨front.length, m⟩
          ⟨front.length + block.length,
            { m with
              memory := (Meaning.expr ctx.scope calls.answer m.frame e m.memory).2
              that
              stack :=
                (Meaning.expr ctx.scope calls.answer m.frame e m.memory).1 :: m.stack }⟩ := by
  refine ⟨Code.expr ctx e, ?_, fun calls m front back hthis => ?_⟩
  · rw [expr_eq e h, Output.toList_append]
  · obtain ⟨that, hrun⟩ := Code.expr_turns hthis e m.memory m.that m.stack
    exact ⟨that, reaches_of_runBlock hrun front back⟩

/-- `f(true) - this` in a method: a call on the object itself, in the middle of other operands. -/
theorem Context.callMinusThis_computes_value :
    let s : Span := ⟨0, 0⟩
    let argument : Expr := .mk (.named .true s) .nil
    let e : Expr := .mk (.call (.mk none ⟨"f", s⟩ s (.some argument .nil) s))
      (.cons .sub s (.named .this s) .nil)
    ∃ block, (Context.mk (.empty "A") .method).expr e .empty = .ok ⟨block.toArray, 0⟩ ∧
      ∀ (calls : Calls) (m : Machine), m.frame.args 0 = m.frame.this →
        ∃ g that, Reaches calls block ⟨0, m⟩ ⟨block.length, { m with
          memory := g
          that
          stack := ((calls.answer "A.f" [m.frame.this, -1] m.memory).1 - m.frame.this) ::
            m.stack }⟩ := by
  intro s argument e
  have h : (Context.mk (.empty "A") .method).expr e .empty = .ok
    ⟨#[.push .argument 0, .push .constant 1, .op .neg, .call "A.f" 2, .push .argument 0, .op .sub],
      0⟩ := rfl
  obtain ⟨block, hblock, hruns⟩ := expr_computes_value h
  obtain rfl : _ = block := hblock
  refine ⟨_, h, fun calls m hthis => ?_⟩
  obtain ⟨that, hrun⟩ := hruns calls m [] [] fun _ => hthis
  exact ⟨_, that, hrun⟩

end Jack
