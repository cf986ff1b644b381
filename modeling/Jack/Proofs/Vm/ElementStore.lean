import Jack.Proofs.Vm.ExprRun

/-!
Assignment to an element. The address waits in the first cell of the temp segment while the value is
computed, and the value goes to the address that this cell holds then. Calls share the segment, so
the right cell is hit exactly as long as they leave the address there.
-/

namespace Jack

/-- The memory of a machine with a new value in the temp segment. -/
def Memory.setTemp (g : Memory Temp) (i : Nat) (value : Word) : Memory Temp :=
  { g with rest := Function.update g.rest i value }

theorem Memory.store_eq_store_iff {τ : Type} (g : Memory τ) (a b value : Word) :
    g.store a value = g.store b value ↔ a = b ∨ (g.heap a = value ∧ g.heap b = value) := by
  constructor
  · intro h
    by_cases hab : a = b
    · exact .inl hab
    · have hheap : (g.store a value).heap = (g.store b value).heap := congrArg Memory.heap h
      have ha := congrFun hheap a
      have hb := congrFun hheap b
      simp only [store, Function.update_self, Function.update_of_ne hab,
        Function.update_of_ne (Ne.symm hab)] at ha hb
      exact .inr ⟨ha.symm, hb⟩
  · rintro (rfl | ⟨ha, hb⟩)
    · rfl
    · simp [store, ← ha, Function.update_eq_self, hb.trans ha.symm]

namespace Turns

variable {calls : Calls} {frame : Frame} {g : Memory Temp}

theorem popTemp (value : Word) (i : Nat) :
    Turns calls frame [.pop .temp i] [value] g [] (g.setTemp i value) := fun that _ => ⟨that, rfl⟩

/-- The last instructions of an assignment to an element, with the value on the stack. -/
theorem storeAtTemp (value : Word) :
    Turns calls frame [.push .temp 0, .pop .pointer 1, .pop .that 0] [value] g []
      (g.store (g.rest 0) value) := by
  intro that stack
  refine ⟨g.rest 0, ?_⟩
  simp [Machine.runBlock, Machine.exec?, Machine.write, Machine.read]

end Turns

/-! ### Memory that calls keep -/

namespace Meaning

variable {τ : Type} {scope : Scope} {answer : Answers τ} {frame : Frame} {P : Memory τ → Prop}

theorem string_keeps (h : ∀ name args g, P g → P (answer name args g).2) {value : String}
    {g : Memory τ} (hg : P g) : P (string answer value g).2 := by
  have hfold (cs : List Char) (r : Word × Memory τ) (hr : P r.2) :
      P (cs.foldl (fun r c => answer "String.appendChar" [r.1, .ofNat 16 c.toNat] r.2) r).2 := by
    induction cs generalizing r with
    | nil => exact hr
    | cons c cs ih => exact ih _ (h _ _ _ hr)
  exact hfold value.toList _ (h _ _ _ hg)

theorem binaryOp_keeps (h : ∀ name args g, P g → P (answer name args g).2) (op : BinaryOp)
    (x y : Word) {g : Memory τ} (hg : P g) : P (op.meaning answer x y g).2 := by
  cases op with
  | mul => exact h _ _ _ hg
  | div => exact h _ _ _ hg
  | _ => exact hg

mutual

/-- What every call keeps, an expression keeps. -/
theorem expr_keeps (h : ∀ name args g, P g → P (answer name args g).2) :
    ∀ (e : Expr) {g : Memory τ}, P g → P (expr scope answer frame e g).2
  | .mk head tail, _, hg => opTerms_keeps h tail (term_keeps h head hg)

theorem opTerms_keeps (h : ∀ name args g, P g → P (answer name args g).2) :
    ∀ (xs : OpTerms) {r : Word × Memory τ}, P r.2 → P (opTerms scope answer frame xs r).2
  | .nil, _, hr => hr
  | .cons op _ t rest, _, hr =>
    opTerms_keeps h rest (binaryOp_keeps h op _ _ (term_keeps h t hr))

theorem term_keeps (h : ∀ name args g, P g → P (answer name args g).2) :
    ∀ (t : Term) {g : Memory τ}, P g → P (term scope answer frame t g).2
  | .integer _ _, _, hg => hg
  | .string _ _, _, hg => string_keeps h hg
  | .named _ _, _, hg => hg
  | .paren _ e _, _, hg => expr_keeps h e hg
  | .unary _ _ t, _, hg => term_keeps h t hg
  | .var _, _, hg => hg
  | .element _ (.mk _ e _), _, hg => expr_keeps h e hg
  | .call (.mk none _ _ as _), _, hg => h _ _ _ (args_keeps h as hg)
  | .call (.mk (some (object, _)) _ _ as _), g, hg => by
    have hargs := args_keeps h as hg
    simp only [term, call]
    cases scope.lookup object.name with
    | none => exact h _ _ _ hargs
    | some v => exact h _ _ _ hargs

theorem args_keeps (h : ∀ name args g, P g → P (answer name args g).2) :
    ∀ (as : Args) {g : Memory τ}, P g → P (args scope answer frame as g).2
  | .none, _, hg => hg
  | .some head tail, _, hg => moreArgs_keeps h tail (expr_keeps h head hg)

theorem moreArgs_keeps (h : ∀ name args g, P g → P (answer name args g).2) :
    ∀ (as : MoreArgs) {g : Memory τ}, P g → P (moreArgs scope answer frame as g).2
  | .nil, _, hg => hg
  | .cons _ e rest, _, hg => moreArgs_keeps h rest (expr_keeps h e hg)

end

end Meaning

/-! ### The assignment -/

theorem Code.assignElement_turns {calls : Calls} {ctx : Context} {frame : Frame}
    (hthis : frame.HoldsThis ctx.kind) (n : Nat) (keyword : Span) (target : Ident) (index : Index)
    (equal : Span) (value : Expr) (semicolon : Span) (g : Memory Temp) :
    let i := Meaning.index ctx.scope calls.answer frame index g
    let address := ctx.scope.value frame g target.name + i.1
    let r := Meaning.expr ctx.scope calls.answer frame value (i.2.setTemp 0 address)
    Turns calls frame (Code.stmt ctx n (.assign keyword target (some index) equal value semicolon))
      [] g [] (r.2.store (r.2.rest 0) r.1) := by
  intro i address r
  have haddress : Turns calls frame (push ctx target :: offset ctx index) [] g [address] i.2 :=
    (push_turns target g).trans (offset_turns hthis index _ g)
  have hvalue : Turns calls frame (expr ctx value) [] (i.2.setTemp 0 address) [r.1] r.2 :=
    expr_turns hthis value _
  simpa [stmt] using ((haddress.trans (.popTemp address 0)).trans hvalue).trans (.storeAtTemp r.1)

/-- What is emitted for `let a[i] = e;` stores the value of `e` in the cell whose address is in the
temp segment when `e` is evaluated, and changes no other cell itself. That is the cell `a + i` of
before exactly when the address is still there, or when both cells hold the value already; it is
whenever calls leave the address alone. -/
theorem Context.assignElement_stores_at_temp {ctx : Context} {keyword : Span} {target : Ident}
    {index : Index} {equal : Span} {value : Expr} {semicolon : Span} {out out' : Output}
    (h : ctx.stmt (.assign keyword target (some index) equal value semicolon) out = .ok out') :
    ∃ block, out'.code.toList = out.code.toList ++ block ∧
      ∀ (calls : Calls) (m : Machine) (front back : List Instr), m.frame.HoldsThis ctx.kind →
        let i := Meaning.index ctx.scope calls.answer m.frame index m.memory
        let address := ctx.scope.value m.frame m.memory target.name + i.1
        let r := Meaning.expr ctx.scope calls.answer m.frame value (i.2.setTemp 0 address)
        (∃ that, Reaches calls (front ++ block ++ back) ⟨front.length, m⟩
          ⟨front.length + block.length,
            { m with memory := r.2.store (r.2.rest 0) r.1, that }⟩) ∧
        (r.2.store (r.2.rest 0) r.1 = r.2.store address r.1 ↔
          r.2.rest 0 = address ∨ (r.2.heap (r.2.rest 0) = r.1 ∧ r.2.heap address = r.1)) ∧
        ((∀ name args g, (calls.answer name args g).2.rest 0 = g.rest 0) →
          r.2.rest 0 = address) := by
  refine ⟨Code.stmt ctx out.labels (.assign keyword target (some index) equal value semicolon), ?_,
    fun calls m front back hthis => ⟨?_, Memory.store_eq_store_iff .., fun hkeeps => ?_⟩⟩
  · rw [stmt_eq _ h, Output.code_number, Output.toList_append]
  · have hturns : Turns calls m.frame _ [] m.memory [] _ :=
      Code.assignElement_turns hthis out.labels keyword target index equal value semicolon m.memory
    obtain ⟨that, hrun⟩ := hturns m.that m.stack
    exact ⟨that, reaches_of_runBlock hrun front back⟩
  · refine Meaning.expr_keeps (P := fun g : Memory Temp => g.rest 0 = _) ?_ value ?_
    · exact fun name args g hg => (hkeeps name args g).trans hg
    · simp [Memory.setTemp]

/-- A function of the class `Main` with one local, `a`. -/
def elementContext : Context :=
  ⟨(Scope.empty "Main").insert ⟨"a", "Array", .localVar, 0⟩, .function⟩

/-- The statement `let a[1] = Main.f();`. -/
def elementFromCall : Stmt :=
  let s : Span := ⟨0, 0⟩
  .assign s ⟨"a", s⟩ (some (.mk s (.mk (.integer 1 s) .nil) s)) s
    (.mk (.call (.mk (some (⟨"Main", s⟩, s)) ⟨"f", s⟩ s .none s)) .nil) s

def elementFromCallCode : List Instr :=
  [.push .localVar 0, .push .constant 1, .op .add, .pop .temp 0, .call "Main.f" 0,
    .push .temp 0, .pop .pointer 1, .pop .that 0]

@[simp] theorem elementContext_lookup_a :
    elementContext.scope.lookup "a" = some ⟨"a", "Array", .localVar, 0⟩ := by
  simp [elementContext, Scope.insert, Scope.lookup, VarKind.level, Scope.empty]

@[simp] theorem elementContext_lookup_main : elementContext.scope.lookup "Main" = none := by
  simp [elementContext, Scope.insert, Scope.lookup, VarKind.level, Scope.empty]

theorem elementContext_stmt :
    elementContext.stmt elementFromCall .empty = .ok ⟨elementFromCallCode.toArray, 0⟩ := by
  simp [elementFromCall, Context.stmt, Context.resolve, Context.offset, Context.expr,
    Context.term, Context.opTerms, Context.call, Context.receiver, Context.args, qualifiedName,
    Args.length, maxOperand, Output.empty, Output.append, Variable.push, VarKind.segment,
    elementFromCallCode, bind, Except.bind, pure, Except.pure]

/-- A machine with the array `a` at address 100, and nothing else in its memory. -/
def elementMachine : Machine :=
  ⟨⟨fun _ => 100, fun _ => 0, 0⟩, ⟨fun _ => 0, fun _ => 0, fun _ => 0⟩, 0, []⟩

/-- Calls that answer 7 and leave the temp segment alone: the value gets to cell 101. -/
theorem Context.elementFromCall_stores :
    let calls : Calls := ⟨fun _ _ g => (7, g), fun _ _ _ that => that⟩
    ∃ m, Reaches calls elementFromCallCode ⟨0, elementMachine⟩ ⟨elementFromCallCode.length, m⟩ ∧
      m.memory.heap 101 = 7 := by
  intro calls
  obtain ⟨block, hblock, hruns⟩ := assignElement_stores_at_temp elementContext_stmt
  obtain rfl : elementFromCallCode = block := hblock
  obtain ⟨⟨that, hrun⟩, -, hkept⟩ := hruns calls elementMachine [] [] fun h => nomatch h
  refine ⟨_, hrun, ?_⟩
  rw [hkept fun _ _ _ => rfl]
  simp [calls, elementMachine, Memory.store, Memory.setTemp, Scope.value, Variable.value,
    Meaning.index, Meaning.expr, Meaning.term, Meaning.opTerms, Meaning.call]

/-- Calls that answer 7 and overwrite the first cell of the temp segment: cell 101 keeps its value,
and cell 0 is changed in its place. -/
theorem Context.elementFromCall_misses :
    let calls : Calls := ⟨fun _ _ g => (7, g.setTemp 0 0), fun _ _ _ that => that⟩
    ∃ m, elementContext.stmt elementFromCall .empty = .ok ⟨elementFromCallCode.toArray, 0⟩ ∧
      Reaches calls elementFromCallCode ⟨0, elementMachine⟩ ⟨elementFromCallCode.length, m⟩ ∧
      m.memory.heap 101 = 0 ∧ m.memory.heap 0 = 7 := by
  intro calls
  have hrun : ∃ m, Machine.runBlock calls elementFromCallCode elementMachine = some m ∧
      m.memory.heap 101 = 0 ∧ m.memory.heap 0 = 7 := ⟨_, rfl, rfl, rfl⟩
  obtain ⟨m, hrun, hheap⟩ := hrun
  exact ⟨m, elementContext_stmt, by simpa using reaches_of_runBlock hrun [] [], hheap⟩

end Jack
