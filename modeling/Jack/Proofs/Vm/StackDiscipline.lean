import Jack.Proofs.Vm.Blocks

/-!
The stack discipline of compiled functions. Every instruction of a function has one height of the
operand stack, whichever way the function gets there, and the stack of a machine that runs the
function always has the height of the place where the machine is.
-/

namespace Jack

/-- Whether an instruction may go on with the next one. -/
def Instr.fallsThrough : Instr → Bool
  | .goto _ | .ret => false
  | _ => true

/-- The instruction at one place may be followed by the one at the other, or by the end. -/
inductive Flows (code : List Instr) : Nat → Nat → Prop
  | next {pc : Nat} {i : Instr} (hi : code[pc]? = some i) (h : i.fallsThrough = true) :
      Flows code pc (pc + 1)
  | jump {pc pc' : Nat} {i : Instr} {l : Label} (hi : code[pc]? = some i)
      (hl : i.target? = some l) (h : code[pc']? = some (.label l)) : Flows code pc pc'

/-- The heights of the stack in the block of a function, with `height pc` in front of the
instruction at `pc`. -/
structure Balanced (block : List Instr) (height : Nat → Nat) : Prop where
  /-- Behind `function` there are no operands. -/
  start : height 1 = 0
  takes_le : ∀ {pc i}, block[pc]? = some i → i.takes ≤ height pc
  flow : ∀ {pc pc' i}, block[pc]? = some i → Flows block pc pc' →
    height pc' + i.takes = height pc + i.gives
  label : ∀ {pc l}, block[pc]? = some (.label l) → height pc = 0
  goto : ∀ {pc l}, block[pc]? = some (.goto l) → height pc = 0
  ret : ∀ {pc}, block[pc]? = some .ret → height pc = 1
  stop : height block.length = 0

/-! ### Heights of a block that is gone through -/

section

variable {body : List Instr} {h' pc : Nat} {i : Instr}

/-- The height in front of an instruction of a body. -/
def heightAt (body : List Instr) (pc : Nat) : Nat := (endHeight? (body.take pc) 0).getD 0

theorem heightAfter?_heightAt (h : endHeight? body 0 = some h') (hi : body[pc]? = some i) :
    i.heightAfter? (heightAt body pc) = some (heightAt body (pc + 1)) := by
  obtain ⟨hlt, rfl⟩ := List.getElem?_eq_some_iff.1 hi
  have hsplit : body.take (pc + 1) ++ body.drop (pc + 1) = body := List.take_append_drop ..
  rw [← hsplit, List.take_succ_eq_append_getElem hlt, endHeight?_append] at h
  obtain ⟨h₂, hstep, -⟩ := Option.bind_eq_some_iff.1 h
  have hnext : heightAt body (pc + 1) = h₂ := by
    rw [heightAt, List.take_succ_eq_append_getElem hlt, hstep, Option.getD_some]
  rw [endHeight?_append] at hstep
  obtain ⟨h₁, hbefore, hi₁⟩ := Option.bind_eq_some_iff.1 hstep
  have hhere : heightAt body pc = h₁ := by rw [heightAt, hbefore, Option.getD_some]
  rw [hhere, hnext, ← endHeight?_singleton, hi₁]

theorem mayStandAt_heightAt (h : endHeight? body 0 = some h') (hi : body[pc]? = some i) :
    i.mayStandAt (heightAt body pc) = true :=
  Instr.mayStandAt_of_heightAfter? (heightAfter?_heightAt h hi)

theorem heightAt_length (h : endHeight? body 0 = some h') : heightAt body body.length = h' := by
  simp [heightAt, h]

/-- An instruction that jumps leaves the height that its label has, zero. -/
theorem gives_of_target? {l : Label} {h : Nat} (hmay : i.mayStandAt h = true)
    (hl : i.target? = some l) : 0 + i.takes = h + i.gives := by
  cases i <;> simp_all [Instr.target?, Instr.mayStandAt, Instr.takes, Instr.gives]

/-- A function whose body can be gone through, from no operands to none, is balanced. -/
theorem balanced_of_endHeight? {name : String} {locals : Nat} (h : endHeight? body 0 = some 0) :
    Balanced (.function name locals :: body) fun pc => heightAt body (pc - 1) := by
  have hzero : heightAt body 0 = 0 := rfl
  -- Every place behind the first is a place of the body.
  have hmay {pc : Nat} {i : Instr} (hi : (Instr.function name locals :: body)[pc + 1]? = some i) :
      i.mayStandAt (heightAt body pc) = true := mayStandAt_heightAt h hi
  have hlabel {pc : Nat} {l : Label}
      (hi : (Instr.function name locals :: body)[pc]? = some (.label l)) :
      heightAt body (pc - 1) = 0 := by
    cases pc with
    | zero => simp at hi
    | succ pc => simpa [Instr.mayStandAt] using hmay hi
  refine ⟨hzero, ?_, ?_, hlabel, ?_, ?_, ?_⟩
  · intro pc i hi
    cases pc with
    | zero =>
      obtain rfl : _ = i := by simpa using hi
      exact Nat.zero_le _
    | succ pc => exact Instr.takes_le_of_mayStandAt (hmay hi)
  · intro pc pc' i hi hflow
    cases pc with
    | zero =>
      obtain rfl : _ = i := by simpa using hi
      cases hflow with
      | next => rfl
      | jump hj hl =>
        obtain rfl := Option.some.inj hj
        simp [Instr.target?] at hl
    | succ pc =>
      cases hflow with
      | next =>
        have hi' : body[pc]? = some i := hi
        exact Instr.heightAfter?_eq (heightAfter?_heightAt h hi')
      | jump hj hl hto =>
        obtain rfl : i = _ := Option.some.inj (hi.symm.trans hj)
        have hheight := gives_of_target? (hmay hi) hl
        rwa [← hlabel hto] at hheight
  · intro pc l hi
    cases pc with
    | zero => simp at hi
    | succ pc => simpa [Instr.mayStandAt] using hmay hi
  · intro pc hi
    cases pc with
    | zero => simp at hi
    | succ pc => simpa [Instr.mayStandAt] using hmay hi
  · exact heightAt_length h

end

/-! ### Heights on a machine -/

theorem ArithOp.length_onStack {o : ArithOp} {stack stack' : List Word}
    (h : o.onStack stack = some stack') : stack'.length + o.arity = stack.length + 1 := by
  cases o <;> rcases stack with _ | ⟨y, _ | ⟨x, rest⟩⟩ <;>
    simp only [onStack, Option.some.injEq, reduceCtorEq] at h <;> subst h <;>
    simp [arity]

theorem Machine.stack_write {m m' : Machine} {value : Word} {s : Segment} {n : Nat}
    (h : m.write value s n = some m') : m'.stack = m.stack := by
  unfold write at h
  split at h <;> first | cases h; rfl | cases h

/-- An instruction changes the stack by what it takes and gives. -/
theorem Machine.length_stack_exec? {calls : Calls} {m m' : Machine} {i : Instr}
    (h : m.exec? calls i = some m') :
    m'.stack.length + i.takes = m.stack.length + i.gives := by
  cases i with
  | push s n =>
    obtain ⟨value, -, rfl⟩ := Option.map_eq_some_iff.1 h
    rfl
  | pop s n =>
    cases hstack : m.stack with
    | nil => simp [exec?, hstack] at h
    | cons value rest =>
      simp only [exec?, hstack] at h
      rw [stack_write h]
      rfl
  | op o =>
    obtain ⟨stack, hstack, rfl⟩ := Option.map_eq_some_iff.1 h
    exact ArithOp.length_onStack hstack
  | label l => cases h; rfl
  | call name n =>
    simp only [exec?] at h
    split at h
    · cases h
      simp only [Instr.takes, Instr.gives, List.length_cons, List.length_drop]
      omega
    · cases h
  | goto | ifGoto | function | ret => cases h

theorem getElem?_of_labelIndex? {code : List Instr} {l : Label} {pc : Nat}
    (h : labelIndex? code l = some pc) : code[pc]? = some (.label l) := by
  obtain ⟨hlt, hpc, -⟩ := List.findIdx?_eq_some_iff_getElem.1 h
  simpa [hlt] using hpc

/-- A step goes along the flow of the code and changes the stack by what the instruction takes and
gives. -/
theorem flows_of_step {calls : Calls} {code : List Instr} {c c' : Config}
    (h : step calls code c = some c') : ∃ i, code[c.pc]? = some i ∧ Flows code c.pc c'.pc ∧
      c'.machine.stack.length + i.takes = c.machine.stack.length + i.gives := by
  cases hi : code[c.pc]? with
  | none => simp [step, hi] at h
  | some i =>
    refine ⟨i, rfl, ?_⟩
    cases i with
    | goto l =>
      simp only [step, hi] at h
      obtain ⟨pc, hpc, rfl⟩ := Option.map_eq_some_iff.1 h
      exact ⟨.jump hi rfl (getElem?_of_labelIndex? hpc), rfl⟩
    | ifGoto l =>
      cases hstack : c.machine.stack with
      | nil => simp [step, hi, hstack] at h
      | cons value rest =>
        simp only [step, hi, hstack] at h
        split at h
        · cases h
          exact ⟨.next hi rfl, rfl⟩
        · obtain ⟨pc, hpc, rfl⟩ := Option.map_eq_some_iff.1 h
          exact ⟨.jump hi rfl (getElem?_of_labelIndex? hpc), rfl⟩
    | ret | function => simp [step, hi, Machine.exec?] at h
    | push | pop | op | label | call =>
      simp only [step, hi] at h
      obtain ⟨m, hm, rfl⟩ := Option.map_eq_some_iff.1 h
      exact ⟨.next hi rfl, Machine.length_stack_exec? hm⟩

namespace Balanced

variable {block : List Instr} {height : Nat → Nat} {calls : Calls}

theorem length_stack_step (h : Balanced block height) {c c' : Config}
    (hc : c.machine.stack.length = height c.pc) (hstep : step calls block c = some c') :
    c'.machine.stack.length = height c'.pc := by
  obtain ⟨i, hi, hflow, hlength⟩ := flows_of_step hstep
  have hheight := h.flow hi hflow
  omega

/-- A machine that starts a function without operands has as many as the place tells, wherever it
gets. -/
theorem length_stack_of_reaches (h : Balanced block height) {m : Machine} {c : Config}
    (hm : m.stack = []) (hc : Reaches calls block ⟨1, m⟩ c) :
    c.machine.stack.length = height c.pc := by
  induction hc with
  | refl => simp [hm, h.start]
  | tail _ hstep ih => exact h.length_stack_step ih hstep

end Balanced

/-! ### Compiled functions -/

/-- In the code of a source, each function has its heights: they agree along every way through the
function, no instruction takes more operands than there are, labels, jumps and the end have none,
and a return has its result alone. A machine that runs the function has these heights. -/
theorem compileSource_balanced {unit source : String} {code : List Instr}
    (h : compileSource unit source = .ok code) :
    ∀ block ∈ functionBlocks code, (∃ name locals body, block = .function name locals :: body) ∧
      ∃ height, Balanced block height ∧
        ∀ (calls : Calls) (m : Machine) (c : Config), m.stack = [] →
          Reaches calls block ⟨1, m⟩ c → c.machine.stack.length = height c.pc := by
  obtain ⟨decl, scope, stages, g, -, -, -, hblocks⟩ := exists_stages_of_compileSource h
  intro block hblock
  rw [hblocks] at hblock
  obtain ⟨stage, -, rfl⟩ := List.mem_map.1 hblock
  have hbalanced : Balanced stage.code _ := balanced_of_endHeight? stage.endHeight?_body
  refine ⟨⟨_, _, _, stage.code_eq⟩, _, hbalanced, ?_⟩
  intro calls m c hm hc
  exact hbalanced.length_stack_of_reaches hm hc

/-- A loop and a return in a method. -/
theorem countDown_balanced :
    compileSource "A" countDownSource = .ok countDownCode ∧
      functionBlocks countDownCode = [countDownCode] ∧
      ∃ height, Balanced countDownCode height ∧ ∀ (calls : Calls) (m : Machine) (c : Config),
        m.stack = [] → Reaches calls countDownCode ⟨1, m⟩ c →
          c.machine.stack.length = height c.pc := by
  have hblocks : functionBlocks countDownCode = [countDownCode] := by decide
  exact ⟨compileSource_countDown, hblocks,
    (compileSource_balanced compileSource_countDown countDownCode (by simp [hblocks])).2⟩

end Jack
