import Jack.Proofs.Tree.Terminals
import Jack.Proofs.Vm.ElementStore
import Jack.Proofs.Vm.Labels

/-!
The code of statements does what they mean, when calls keep the temp segment of their caller. The
machine follows `Runs`: from the first instruction of the code it gets behind the last one when the
statements end normally, and to a return when they end with a result.
-/

namespace Jack

/-! ### Calls that keep the temp segment -/

/-- The memory on a machine, with a temp segment. -/
def Memory.withTemp (g : Memory Unit) (temp : Temp) : Memory Temp := ⟨g.heap, g.statics, temp⟩

namespace Memory

variable (g : Memory Unit) (temp : Temp)

theorem rest_withTemp : (g.withTemp temp).rest = temp := rfl

theorem setTemp_withTemp (i : Nat) (value : Word) :
    (g.withTemp temp).setTemp i value = g.withTemp (Function.update temp i value) := rfl

theorem store_withTemp (address value : Word) :
    (g.withTemp temp).store address value = (g.store address value).withTemp temp := rfl

end Memory

/-- Calls that see and change nothing but the heap and the static variables. -/
def Answers.onMachine (answer : Answers Unit) : Calls where
  answer name args g :=
    ((answer name args ⟨g.heap, g.statics, ()⟩).1,
      (answer name args ⟨g.heap, g.statics, ()⟩).2.withTemp g.rest)
  that _ _ _ that := that

namespace Meaning

variable {scope : Scope} {answer : Answers Unit} {frame : Frame} {temp : Temp}

theorem variable_withTemp (v : Variable) (g : Memory Unit) :
    v.value frame (g.withTemp temp) = v.value frame g := by
  obtain ⟨name, type, kind, index⟩ := v
  cases kind <;> rfl

theorem value_withTemp (name : String) (g : Memory Unit) :
    scope.value frame (g.withTemp temp) name = scope.value frame g name := by
  cases h : scope.lookup name with
  | none => simp [Scope.value, h]
  | some v => simp [Scope.value, h, variable_withTemp]

theorem string_withTemp (value : String) (g : Memory Unit) :
    string answer.onMachine.answer value (g.withTemp temp) =
      ((string answer value g).1, (string answer value g).2.withTemp temp) := by
  have hfold (cs : List Char) (r : Word × Memory Unit) :
      cs.foldl (fun r c => answer.onMachine.answer "String.appendChar"
        [r.1, .ofNat 16 c.toNat] r.2) (r.1, r.2.withTemp temp) =
      ((cs.foldl (fun r c => answer "String.appendChar" [r.1, .ofNat 16 c.toNat] r.2) r).1,
        (cs.foldl (fun r c => answer "String.appendChar" [r.1, .ofNat 16 c.toNat] r.2)
          r).2.withTemp temp) := by
    induction cs generalizing r with
    | nil => rfl
    | cons c cs ih => exact ih _
  exact hfold value.toList _

theorem binaryOp_withTemp (op : BinaryOp) (x y : Word) (g : Memory Unit) :
    op.meaning answer.onMachine.answer x y (g.withTemp temp) =
      ((op.meaning answer x y g).1, (op.meaning answer x y g).2.withTemp temp) := by
  cases op <;> rfl

mutual

/-- An expression has the same value on a machine whose calls keep the temp segment, and keeps the
segment as they do. -/
theorem expr_withTemp : ∀ (e : Expr) (g : Memory Unit),
    expr scope answer.onMachine.answer frame e (g.withTemp temp) =
      ((expr scope answer frame e g).1, (expr scope answer frame e g).2.withTemp temp)
  | .mk head tail, g => by
    rw [expr, term_withTemp head g, opTerms_withTemp tail, expr]

theorem opTerms_withTemp : ∀ (xs : OpTerms) (r : Word × Memory Unit),
    opTerms scope answer.onMachine.answer frame xs (r.1, r.2.withTemp temp) =
      ((opTerms scope answer frame xs r).1, (opTerms scope answer frame xs r).2.withTemp temp)
  | .nil, r => rfl
  | .cons op _ t rest, r => by
    rw [opTerms, term_withTemp t r.2, binaryOp_withTemp, opTerms_withTemp rest, opTerms]

theorem term_withTemp : ∀ (t : Term) (g : Memory Unit),
    term scope answer.onMachine.answer frame t (g.withTemp temp) =
      ((term scope answer frame t g).1, (term scope answer frame t g).2.withTemp temp)
  | .integer _ _, g => rfl
  | .string value _, g => string_withTemp value g
  | .named _ _, g => rfl
  | .paren _ e _, g => expr_withTemp e g
  | .unary op _ t, g => by rw [term, term_withTemp t g, term]
  | .var name, g => by rw [term, value_withTemp, term]
  | .element name i, g => by
    rw [term, index_withTemp i g, value_withTemp, term]
    rfl
  | .call c, g => call_withTemp c g

theorem index_withTemp : ∀ (i : Index) (g : Memory Unit),
    index scope answer.onMachine.answer frame i (g.withTemp temp) =
      ((index scope answer frame i g).1, (index scope answer frame i g).2.withTemp temp)
  | .mk _ e _, g => expr_withTemp e g

theorem call_withTemp : ∀ (c : Call) (g : Memory Unit),
    call scope answer.onMachine.answer frame c (g.withTemp temp) =
      ((call scope answer frame c g).1, (call scope answer frame c g).2.withTemp temp)
  | .mk none name _ as _, g => by
    rw [call, args_withTemp as g, call]
    rfl
  | .mk (some (object, _)) name _ as _, g => by
    rw [call, args_withTemp as g, call]
    cases scope.lookup object.name with
    | none => rfl
    | some v =>
      simp only [variable_withTemp]
      rfl

theorem args_withTemp : ∀ (as : Args) (g : Memory Unit),
    args scope answer.onMachine.answer frame as (g.withTemp temp) =
      ((args scope answer frame as g).1, (args scope answer frame as g).2.withTemp temp)
  | .none, g => rfl
  | .some head tail, g => by
    rw [args, expr_withTemp head g, moreArgs_withTemp tail, args]

theorem moreArgs_withTemp : ∀ (as : MoreArgs) (g : Memory Unit),
    moreArgs scope answer.onMachine.answer frame as (g.withTemp temp) =
      ((moreArgs scope answer frame as g).1, (moreArgs scope answer frame as g).2.withTemp temp)
  | .nil, g => rfl
  | .cons _ e rest, g => by
    rw [moreArgs, expr_withTemp e g, moreArgs_withTemp rest, moreArgs]

end

end Meaning

/-! ### Machines in a state -/

/-- A machine in a state, with what the state says nothing about. -/
def State.machine (s : State) (temp : Temp) (that : Word) (stack : List Word) : Machine :=
  ⟨s.frame, s.memory.withTemp temp, that, stack⟩

theorem State.exec?_pop (s : State) (calls : Calls) (v : Variable) (value : Word) (temp : Temp)
    (that : Word) (stack : List Word) :
    (s.machine temp that (value :: stack)).exec? calls v.pop =
      some ((s.assign v value).machine temp that stack) := by
  obtain ⟨name, type, kind, index⟩ := v
  cases kind <;> rfl

section

variable {ctx : Context} {answer : Answers Unit} {code : List Instr} {pc n : Nat} {s : State}
  {temp : Temp} {that : Word} {stack : List Word}

theorem Turns.reaches {block : List Instr} {ws : List Word} {temp' : Temp} {g : Memory Unit}
    (hturns : Turns answer.onMachine s.frame block [] (s.memory.withTemp temp) ws
      (g.withTemp temp'))
    (h : StandsAt code pc block) :
    ∃ that', Reaches answer.onMachine code ⟨pc, s.machine temp that stack⟩
      ⟨pc + block.length, State.machine ⟨s.frame, g⟩ temp' that' (ws ++ stack)⟩ := by
  obtain ⟨that', hrun⟩ := hturns that stack
  exact ⟨that', h.reaches hrun⟩

theorem eval_reaches {e : Expr} (h : StandsAt code pc (Code.expr ctx e))
    (hthis : s.frame.HoldsThis ctx.kind) :
    ∃ that', Reaches answer.onMachine code ⟨pc, s.machine temp that stack⟩
      ⟨pc + (Code.expr ctx e).length, State.machine ⟨s.frame, (s.eval ctx.scope answer e).2⟩
        temp that' ((s.eval ctx.scope answer e).1 :: stack)⟩ := by
  have hturns : Turns answer.onMachine s.frame (Code.expr ctx e) [] (s.memory.withTemp temp) _ _ :=
    Code.expr_turns hthis e _
  rw [Meaning.expr_withTemp] at hturns
  exact hturns.reaches h

theorem assign_reaches {keyword equal semicolon : Span} {target : Ident} {value : Expr}
    {v : Variable} (hv : ctx.scope.lookup target.name = some v)
    (h : StandsAt code pc (Code.stmt ctx n (.assign keyword target none equal value semicolon)))
    (hthis : s.frame.HoldsThis ctx.kind) :
    ∃ that', Reaches answer.onMachine code ⟨pc, s.machine temp that stack⟩
      ⟨pc + (Code.stmt ctx n (.assign keyword target none equal value semicolon)).length,
        (State.assign ⟨s.frame, (s.eval ctx.scope answer value).2⟩ v
          (s.eval ctx.scope answer value).1).machine temp that' stack⟩ := by
  have hpop : Code.pop ctx target = v.pop := by simp [Code.pop, hv]
  simp only [Code.stmt, hpop, List.length_append, List.length_singleton] at h ⊢
  obtain ⟨that', heval⟩ := eval_reaches h.left hthis
  refine ⟨that', heval.trans (.single ?_)⟩
  exact step_of_exec? h.right.head (State.exec?_pop ..)

/-- The address waits in the temp segment, where calls leave it. -/
theorem assignElement_reaches {keyword equal semicolon : Span} {target : Ident} {index : Index}
    {value : Expr} {i r : Word × Memory Unit}
    (hi : Meaning.index ctx.scope answer s.frame index s.memory = i)
    (hr : Meaning.expr ctx.scope answer s.frame value i.2 = r)
    (h : StandsAt code pc
      (Code.stmt ctx n (.assign keyword target (some index) equal value semicolon)))
    (hthis : s.frame.HoldsThis ctx.kind) :
    ∃ temp' that', Reaches answer.onMachine code ⟨pc, s.machine temp that stack⟩
      ⟨pc + (Code.stmt ctx n (.assign keyword target (some index) equal value semicolon)).length,
        State.machine ⟨s.frame, r.2.store
          (ctx.scope.value s.frame s.memory target.name + i.1) r.1⟩ temp' that' stack⟩ := by
  have hturns : Turns answer.onMachine s.frame _ [] (s.memory.withTemp temp) _ _ :=
    Code.assignElement_turns hthis n keyword target index equal value semicolon _
  simp only [Meaning.index_withTemp, Meaning.value_withTemp, hi, Memory.setTemp_withTemp,
    Meaning.expr_withTemp, hr, Memory.rest_withTemp, Function.update_self,
    Memory.store_withTemp] at hturns
  exact ⟨_, hturns.reaches h⟩

theorem perform_reaches {keyword semicolon : Span} {call : Call}
    (h : StandsAt code pc (Code.stmt ctx n (.perform keyword call semicolon)))
    (hthis : s.frame.HoldsThis ctx.kind) :
    ∃ temp' that', Reaches answer.onMachine code ⟨pc, s.machine temp that stack⟩
      ⟨pc + (Code.stmt ctx n (.perform keyword call semicolon)).length,
        State.machine ⟨s.frame, (Meaning.call ctx.scope answer s.frame call s.memory).2⟩ temp' that'
          stack⟩ := by
  have hcall : Turns answer.onMachine s.frame (Code.call ctx call) []
      (s.memory.withTemp temp) _ _ :=
    Code.term_turns hthis (.call call) _
  have hturns := hcall.trans (.popTemp _ 0)
  rw [Meaning.term, Meaning.call_withTemp, Memory.setTemp_withTemp] at hturns
  exact ⟨_, hturns.reaches h⟩

end

/-! ### Statements in statements -/

theorem Code.block_eq_stmts (ctx : Context) (n : Nat) (b : Block) :
    Code.block ctx n b = Code.stmts ctx n b.body := by
  cases b
  rfl

theorem Code.otherwise_eq_stmts (ctx : Context) (n : Nat) (no : Otherwise) :
    Code.otherwise ctx n no = Code.stmts ctx n no.body := by
  cases no with
  | none => rfl
  | some keyword b => exact block_eq_stmts ctx n b

/-- From `pc` the machine gets into the code of statements, which starts at `lo` and ends before
`hi`, and from behind it to the place `after`. -/
structure Enters (ctx : Context) (answer : Answers Unit) (code : List Instr) (s s' : State)
    (body : Stmts) (pc hi after n lo : Nat) : Prop where
  standsAt : StandsAt code lo (Code.stmts ctx n body)
  le : pc ≤ lo
  lt : lo + (Code.stmts ctx n body).length < hi
  enter : ∀ temp that stack, ∃ that', Reaches answer.onMachine code
    ⟨pc, s.machine temp that stack⟩ ⟨lo, s'.machine temp that' stack⟩
  leave : ∀ m, Reaches answer.onMachine code ⟨lo + (Code.stmts ctx n body).length, m⟩ ⟨after, m⟩

section

variable {ctx : Context} {answer : Answers Unit} {code : List Instr} {pc n : Nat} {s : State}
  {keyword left right : Span} {condition : Expr} {r : Word × Memory Unit}

/-- A condition goes on behind its jump or where that leads to. -/
theorem condition_reaches {l : Label} {block : List Instr} {target : Nat} {temp : Temp}
    {that : Word} {stack : List Word}
    (h : StandsAt code pc (Code.expr ctx condition ++ .ifGoto l :: block))
    (hl : labelIndex? code l = some target) (hthis : s.frame.HoldsThis ctx.kind)
    (hr : s.eval ctx.scope answer condition = r) :
    ∃ that', Reaches answer.onMachine code ⟨pc, s.machine temp that stack⟩
      ⟨if r.1 = 0 then pc + (Code.expr ctx condition).length + 1 else target,
        State.machine ⟨s.frame, r.2⟩ temp that' stack⟩ := by
  subst hr
  obtain ⟨that', heval⟩ := eval_reaches h.left hthis
  refine ⟨that', heval.trans ?_⟩
  let m := State.machine ⟨s.frame, (s.eval ctx.scope answer condition).2⟩ temp that' stack
  split
  next hzero =>
    rw [hzero]
    exact reaches_ifGoto_of_zero (m := m) h.right.head
  next hholds => exact reaches_ifGoto_of_ne_zero (m := m) h.right.head hl hholds

variable (hlabels : (labelsOf code).Nodup)

include hlabels

theorem branch_enters {yes : Block} {no : Otherwise} {hi : Nat}
    (h : StandsAt code pc (Code.stmt ctx n (.branch keyword left condition right yes no)))
    (hhi : pc + (Code.stmt ctx n (.branch keyword left condition right yes no)).length = hi)
    (hthis : s.frame.HoldsThis ctx.kind) (hr : s.eval ctx.scope answer condition = r) :
    ∃ n' lo, Enters ctx answer code s ⟨s.frame, r.2⟩ (if r.1 = 0 then no.body else yes.body)
      pc hi hi n' lo := by
  simp only [Code.stmt, Code.otherwise_eq_stmts, Code.block_eq_stmts, List.length_append,
    List.length_cons, List.length_nil] at h hhi
  -- The part for a condition that does not hold comes first, behind the jump to the other one.
  have hno := h.right.tail
  have hgoto := hno.right
  have hyes := hgoto.tail.tail
  have hend := hyes.right
  have hholds := labelIndex?_of_standsAt hlabels hgoto.tail
  have hlast (m : Machine) : Reaches answer.onMachine code ⟨_, m⟩ ⟨hi, m⟩ :=
    (reaches_label hend.head).toPc (by omega)
  split
  next hzero =>
    refine ⟨_, _, hno.left, by omega, by omega, fun temp that stack => ?_, fun m => ?_⟩
    · simpa only [hzero, if_true] using condition_reaches h hholds hthis hr
    · have hbranchEnd := labelIndex?_of_standsAt hlabels hend
      exact (reaches_goto hgoto.head hbranchEnd).trans (hlast m)
  next hne =>
    refine ⟨_, _, hyes.left, by omega, by omega, fun temp that stack => ?_, hlast⟩
    obtain ⟨that', hreach⟩ := condition_reaches h hholds hthis hr
    rw [if_neg hne] at hreach
    exact ⟨that', hreach.trans (reaches_label hgoto.tail.head)⟩

/-- From behind the body of a loop the machine gets back to the condition. -/
theorem loop_enters {body : Block} {hi : Nat}
    (h : StandsAt code pc (Code.stmt ctx n (.loop keyword left condition right body)))
    (hhi : pc + (Code.stmt ctx n (.loop keyword left condition right body)).length = hi)
    (hthis : s.frame.HoldsThis ctx.kind) (hr : s.eval ctx.scope answer condition = r)
    (hholds : r.1 ≠ 0) :
    ∃ n' lo, Enters ctx answer code s ⟨s.frame, r.2⟩ body.body pc hi pc n' lo := by
  simp only [Code.stmt, Code.block_eq_stmts, List.length_append, List.length_cons,
    List.length_nil] at h hhi
  have hlabel := h.tail.right.tail.tail
  have hbody := hlabel.tail
  have hstart := labelIndex?_of_standsAt hlabels h
  have hinner := labelIndex?_of_standsAt hlabels hlabel
  refine ⟨_, _, hbody.left, by omega, by omega, fun temp that stack => ?_, fun m => ?_⟩
  · obtain ⟨that', hreach⟩ := condition_reaches h.tail hinner hthis hr
    rw [if_neg hholds] at hreach
    exact ⟨that', ((reaches_label h.head).trans hreach).trans (reaches_label hlabel.head)⟩
  · exact reaches_goto hbody.right.head hstart

theorem loop_exits {body : Block} {g : Memory Unit} {temp : Temp} {that : Word} {stack : List Word}
    (h : StandsAt code pc (Code.stmt ctx n (.loop keyword left condition right body)))
    (hthis : s.frame.HoldsThis ctx.kind) (hr : s.eval ctx.scope answer condition = (0, g)) :
    ∃ that', Reaches answer.onMachine code ⟨pc, s.machine temp that stack⟩
      ⟨pc + (Code.stmt ctx n (.loop keyword left condition right body)).length,
        State.machine ⟨s.frame, g⟩ temp that' stack⟩ := by
  simp only [Code.stmt, Code.block_eq_stmts, List.length_append, List.length_cons,
    List.length_nil] at h ⊢
  have hgoto := h.tail.right.tail
  have hend := hgoto.tail.tail.right.tail
  have hinner := labelIndex?_of_standsAt hlabels hgoto.tail
  have hloopEnd := labelIndex?_of_standsAt hlabels hend
  obtain ⟨that', hreach⟩ := condition_reaches h.tail hinner hthis hr
  refine ⟨that', ((reaches_label h.head).trans hreach).trans ?_⟩
  exact (reaches_goto hgoto.head hloopEnd).trans ((reaches_label hend.head).toPc (by omega))

end

/-! ### The object of a method -/

/-- The statements are in others: they are these, their last ones, or those of a branch or of a loop
among them. -/
inductive Stmts.Within (body : Stmts) : Stmts → Prop
  | refl : Within body body
  | rest {s rest} (h : Within body rest) : Within body (.cons s rest)
  | yes {keyword left condition right yes no rest} (h : Within body (Block.body yes)) :
      Within body (.cons (.branch keyword left condition right yes no) rest)
  | no {keyword left condition right yes no rest} (h : Within body (Otherwise.body no)) :
      Within body (.cons (.branch keyword left condition right yes no) rest)
  | loop {keyword left condition right inner rest} (h : Within body (Block.body inner)) :
      Within body (.cons (.loop keyword left condition right inner) rest)

theorem Block.terminals_body_subset (b : Block) : b.body.terminals ⊆ b.terminals := by
  cases b
  simp [Block.body, Block.terminals]

theorem Otherwise.terminals_body_subset (no : Otherwise) : no.body.terminals ⊆ no.terminals := by
  cases no with
  | none => simp [Otherwise.body, Stmts.terminals]
  | some keyword b =>
    exact fun x hx => List.mem_cons_of_mem _ (b.terminals_body_subset hx)

namespace Stmts

theorem Within.terminals_subset {body body' : Stmts} (h : Within body' body) :
    body'.terminals ⊆ body.terminals := by
  induction h with
  | refl => exact List.Subset.refl _
  | rest _ ih => exact fun x hx => by simp [terminals, ih hx]
  | yes _ ih =>
    exact fun x hx => by simp [terminals, Stmt.terminals, Block.terminals_body_subset _ (ih hx)]
  | no _ ih =>
    exact fun x hx => by simp [terminals, Stmt.terminals, Otherwise.terminals_body_subset _ (ih hx)]
  | loop _ ih =>
    exact fun x hx => by simp [terminals, Stmt.terminals, Block.terminals_body_subset _ (ih hx)]

end Stmts

theorem NoThis.within {body body' : Stmts} (h : NoThis body.terminals) (hin : body'.Within body) :
    NoThis body'.terminals := h.mono hin.terminals_subset

theorem NoThis.chosen {keyword left right : Span} {condition : Expr} {yes : Block} {no : Otherwise}
    {rest : Stmts}
    (h : NoThis (Stmts.cons (.branch keyword left condition right yes no) rest).terminals)
    (r : Word) : NoThis (if r = 0 then no.body else yes.body).terminals := by
  split
  · exact h.within (.no .refl)
  · exact h.within (.yes .refl)

theorem NoThis.target_ne {keyword equal semicolon : Span} {target : Ident} {index : Option Index}
    {value : Expr} {rest : Stmts}
    (h : NoThis (Stmts.cons (.assign keyword target index equal value semicolon) rest).terminals) :
    target.name ≠ "this" := by
  intro hname
  refine h target.span ?_
  simp [Stmts.terminals, Stmt.terminals, Ident.terminal, ← hname]

/-- In a method, only the name of the current object means the first argument. -/
def Context.FixesThis (ctx : Context) : Prop :=
  ctx.kind = .method → ∀ name v, ctx.scope.lookup name = some v → v.kind = .argument →
    v.index = 0 → name = "this"

theorem State.assign_holdsThis {s : State} {kind : SubroutineKind} {v : Variable}
    (h : s.frame.HoldsThis kind)
    (hv : kind = .method → v.kind = .argument → v.index ≠ 0) (value : Word) :
    (s.assign v value).frame.HoldsThis kind := by
  intro hmethod
  obtain ⟨name, type, vkind, index⟩ := v
  cases vkind with
  | argument =>
    have hindex := (hv hmethod rfl).symm
    exact (Function.update_of_ne hindex ..).trans (h hmethod)
  | _ => exact h hmethod

section

variable {ctx : Context} {answer : Answers Unit} {body : Stmts} {s t : State} {o : Outcome}

theorem Context.FixesThis.holdsThis_assign {keyword equal semicolon : Span} {target : Ident}
    {index : Option Index} {value : Expr} {rest : Stmts} {v : Variable} {r : Word}
    (hfixes : ctx.FixesThis)
    (hspares :
      NoThis (Stmts.cons (.assign keyword target index equal value semicolon) rest).terminals)
    (hv : ctx.scope.lookup target.name = some v) (h : s.frame.HoldsThis ctx.kind) :
    (s.assign v r).frame.HoldsThis ctx.kind :=
  State.assign_holdsThis h
    (fun hmethod hargument hzero => hspares.target_ne (hfixes hmethod _ v hv hargument hzero)) r

/-- Statements leave the current object of a method in its first argument. -/
theorem Runs.holdsThis (h : Runs ctx.scope answer body s o t) (hfixes : ctx.FixesThis)
    (hspares : NoThis body.terminals) (hthis : s.frame.HoldsThis ctx.kind) :
    t.frame.HoldsThis ctx.kind := by
  induction h with
  | nil => exact hthis
  | assign hv _ ih =>
    exact ih (hspares.within (.rest .refl)) (hfixes.holdsThis_assign hspares hv hthis)
  | assignElement _ _ _ ih => exact ih (hspares.within (.rest .refl)) hthis
  | branch _ _ _ ihchosen ihrest =>
    exact ihrest (hspares.within (.rest .refl)) (ihchosen (hspares.chosen _) hthis)
  | branchReturn _ _ ihchosen => exact ihchosen (hspares.chosen _) hthis
  | loopEnd _ _ ih => exact ih (hspares.within (.rest .refl)) hthis
  | loopAgain _ _ _ _ ihbody ihagain =>
    exact ihagain hspares (ihbody (hspares.within (.loop .refl)) hthis)
  | loopReturn _ _ _ ihbody => exact ihbody (hspares.within (.loop .refl)) hthis
  | perform _ ih => exact ih (hspares.within (.rest .refl)) hthis
  | finish => exact hthis
  | finishValue => exact hthis

end

/-! ### Runs of statements -/

/-- The machine gets from `c` to the place `hi` when statements end normally, and to a return from
`lo` on and before `hi`, with the result on the stack, when they end with one. It is in the state
`t` then. -/
def Arrives (calls : Calls) (code : List Instr) (c : Config) (lo hi : Nat) (stack : List Word)
    (t : State) : Outcome → Prop
  | .normal => ∃ temp that, Reaches calls code c ⟨hi, t.machine temp that stack⟩
  | .returned value => ∃ pc temp that, lo ≤ pc ∧ pc < hi ∧ code[pc]? = some .ret ∧
      Reaches calls code c ⟨pc, t.machine temp that (value :: stack)⟩

namespace Arrives

variable {calls : Calls} {code : List Instr} {c c' : Config} {lo lo' hi hi' : Nat}
  {stack : List Word} {t : State} {o : Outcome} {value : Word}

theorem after (h : Arrives calls code c' lo hi stack t o) (hreach : Reaches calls code c c')
    (hlo : lo' ≤ lo) : Arrives calls code c lo' hi stack t o := by
  cases o with
  | normal =>
    obtain ⟨temp, that, h⟩ := h
    exact ⟨temp, that, hreach.trans h⟩
  | returned value =>
    obtain ⟨pc, temp, that, hle, hlt, hret, h⟩ := h
    exact ⟨pc, temp, that, Nat.le_trans hlo hle, hlt, hret, hreach.trans h⟩

theorem upTo (h : Arrives calls code c lo hi stack t (.returned value)) (hhi : hi ≤ hi') :
    Arrives calls code c lo hi' stack t (.returned value) := by
  obtain ⟨pc, temp, that, hle, hlt, hret, h⟩ := h
  exact ⟨pc, temp, that, hle, Nat.lt_of_lt_of_le hlt hhi, hret, h⟩

end Arrives

/-- Wherever the code of the statements stands, the machine does what they do. -/
def Simulates (ctx : Context) (answer : Answers Unit) (code : List Instr) (body : Stmts) (s : State)
    (o : Outcome) (t : State) : Prop :=
  ∀ ⦃n pc temp that stack⦄, StandsAt code pc (Code.stmts ctx n body) →
    Arrives answer.onMachine code ⟨pc, s.machine temp that stack⟩ pc
      (pc + (Code.stmts ctx n body).length) stack t o

section

variable {ctx : Context} {answer : Answers Unit} {code : List Instr} {s s' t : State} {o : Outcome}
  {stmt : Stmt} {rest body : Stmts} {pc hi after n lo : Nat} {temp : Temp} {that : Word}
  {stack : List Word} {value : Word}

theorem Enters.reaches (h : Enters ctx answer code s s' body pc hi after n lo)
    (hbody : Simulates ctx answer code body s' .normal t) :
    ∃ temp' that', Reaches answer.onMachine code ⟨pc, s.machine temp that stack⟩
      ⟨after, t.machine temp' that' stack⟩ := by
  obtain ⟨that₁, henter⟩ := h.enter temp that stack
  obtain ⟨temp', that', hrun⟩ := hbody h.standsAt
  exact ⟨temp', that', (henter.trans hrun).trans (h.leave _)⟩

theorem Enters.arrives (h : Enters ctx answer code s s' body pc hi after n lo)
    (hbody : Simulates ctx answer code body s' (.returned value) t) :
    Arrives answer.onMachine code ⟨pc, s.machine temp that stack⟩ pc hi stack t
      (.returned value) := by
  obtain ⟨that₁, henter⟩ := h.enter temp that stack
  exact ((hbody h.standsAt).after henter h.le).upTo (Nat.le_of_lt h.lt)

/-- A statement that the machine gets through, and then the rest. -/
theorem Simulates.cons (hrest : Simulates ctx answer code rest s' o t)
    (h : StandsAt code pc (Code.stmts ctx n (.cons stmt rest)))
    (hreach : ∃ temp' that', Reaches answer.onMachine code ⟨pc, s.machine temp that stack⟩
      ⟨pc + (Code.stmt ctx n stmt).length, s'.machine temp' that' stack⟩) :
    Arrives answer.onMachine code ⟨pc, s.machine temp that stack⟩ pc
      (pc + (Code.stmts ctx n (.cons stmt rest)).length) stack t o := by
  obtain ⟨temp', that', hreach⟩ := hreach
  simp only [Code.stmts, List.length_append, ← Nat.add_assoc] at h ⊢
  exact (hrest h.right).after hreach (by omega)

/-- A return in the first statement. -/
theorem Arrives.cons (h : Arrives answer.onMachine code ⟨pc, s.machine temp that stack⟩ pc
      (pc + (Code.stmt ctx n stmt).length) stack t (.returned value)) (rest : Stmts) :
    Arrives answer.onMachine code ⟨pc, s.machine temp that stack⟩ pc
      (pc + (Code.stmts ctx n (.cons stmt rest)).length) stack t (.returned value) :=
  h.upTo (by simp [Code.stmts])

theorem finish_arrives {keyword semicolon : Span}
    (h : StandsAt code pc (Code.stmt ctx n (.finish keyword none semicolon))) :
    Arrives answer.onMachine code ⟨pc, s.machine temp that stack⟩ pc
      (pc + (Code.stmt ctx n (.finish keyword none semicolon)).length) stack s (.returned 0) := by
  refine ⟨pc + 1, temp, that, by omega, by simp [Code.stmt], h.tail.head, .single ?_⟩
  exact step_of_exec? h.head rfl

theorem finishValue_arrives {keyword semicolon : Span} {e : Expr}
    (h : StandsAt code pc (Code.stmt ctx n (.finish keyword (some e) semicolon)))
    (hthis : s.frame.HoldsThis ctx.kind) :
    Arrives answer.onMachine code ⟨pc, s.machine temp that stack⟩ pc
      (pc + (Code.stmt ctx n (.finish keyword (some e) semicolon)).length) stack
      ⟨s.frame, (s.eval ctx.scope answer e).2⟩ (.returned (s.eval ctx.scope answer e).1) := by
  simp only [Code.stmt, List.length_append, List.length_singleton] at h ⊢
  obtain ⟨that', heval⟩ := eval_reaches h.left hthis
  exact ⟨_, temp, that', by omega, by omega, h.right.head, heval⟩

/-- The code of statements does what they do, wherever it stands in code whose labels are distinct.
Stated over the run, because a loop runs again with the same code. -/
theorem Runs.simulates (h : Runs ctx.scope answer body s o t) (hlabels : (labelsOf code).Nodup)
    (hfixes : ctx.FixesThis) (hspares : NoThis body.terminals)
    (hthis : s.frame.HoldsThis ctx.kind) :
    Simulates ctx answer code body s o t := by
  induction h with
  | nil =>
    intro n pc temp that stack hat
    exact ⟨temp, that, .refl _⟩
  | assign hv _ ih =>
    intro n pc temp that stack hat
    have hrest := ih (hspares.within (.rest .refl)) (hfixes.holdsThis_assign hspares hv hthis)
    exact hrest.cons hat ⟨_, assign_reaches hv hat.left hthis⟩
  | assignElement hi hr _ ih =>
    intro n pc temp that stack hat
    have hrest := ih (hspares.within (.rest .refl)) hthis
    exact hrest.cons hat (assignElement_reaches hi hr hat.left hthis)
  | branch hr hchosen _ ihchosen ihrest =>
    intro n pc temp that stack hat
    have hchosen' := ihchosen (hspares.chosen _) hthis
    have hrest := ihrest (hspares.within (.rest .refl))
      (hchosen.holdsThis hfixes (hspares.chosen _) hthis)
    obtain ⟨n', lo, henters⟩ := branch_enters hlabels hat.left rfl hthis hr
    exact hrest.cons hat (henters.reaches hchosen')
  | branchReturn hr _ ihchosen =>
    intro n pc temp that stack hat
    obtain ⟨n', lo, henters⟩ := branch_enters hlabels hat.left rfl hthis hr
    exact (henters.arrives (ihchosen (hspares.chosen _) hthis)).cons _
  | loopEnd hr _ ih =>
    intro n pc temp that stack hat
    have hrest := ih (hspares.within (.rest .refl)) hthis
    exact hrest.cons hat ⟨_, loop_exits hlabels hat.left hthis hr⟩
  | loopAgain hr hholds hbody _ ihbody ihagain =>
    intro n pc temp that stack hat
    have hinner := hspares.within (.loop .refl)
    obtain ⟨n', lo, henters⟩ := loop_enters hlabels hat.left rfl hthis hr hholds
    -- Behind its body the loop is at its first instruction again, so the rest of the run applies.
    obtain ⟨temp', that', hback⟩ := henters.reaches (ihbody hinner hthis)
    exact (ihagain hspares (hbody.holdsThis hfixes hinner hthis) hat).after hback (Nat.le_refl pc)
  | loopReturn hr hholds _ ihbody =>
    intro n pc temp that stack hat
    obtain ⟨n', lo, henters⟩ := loop_enters hlabels hat.left rfl hthis hr hholds
    exact (henters.arrives (ihbody (hspares.within (.loop .refl)) hthis)).cons _
  | perform _ ih =>
    intro n pc temp that stack hat
    have hrest := ih (hspares.within (.rest .refl)) hthis
    exact hrest.cons hat (perform_reaches hat.left hthis)
  | finish =>
    intro n pc temp that stack hat
    exact (finish_arrives hat.left).cons _
  | finishValue =>
    intro n pc temp that stack hat
    exact (finishValue_arrives hat.left hthis).cons _

end

end Jack
