import Jack.Proofs.Tree.Acceptance
import Jack.Proofs.Vm.Declarations

/-!
The code of a subroutine does what its statements mean. Its labels are distinct, and each list of
statements in its body has its own stretch of the code, so the machine follows any run of them.
-/

namespace Jack

/-! ### Outputs in the course of an emission -/

/-- The code of the one output is where the code of the other starts. -/
def Output.Before (out out' : Output) : Prop :=
  ∃ block, out'.code.toList = out.code.toList ++ block

namespace Output.Before

variable {out out₁ out₂ : Output}

theorem refl (out : Output) : out.Before out := ⟨[], by simp⟩

theorem trans (h₁ : out.Before out₁) (h₂ : out₁.Before out₂) : out.Before out₂ := by
  obtain ⟨block₁, h₁⟩ := h₁
  obtain ⟨block₂, h₂⟩ := h₂
  exact ⟨block₁ ++ block₂, by rw [h₂, h₁, List.append_assoc]⟩

theorem append (h : out.Before out₁) (block : List Instr) : out.Before (out₁.append block) :=
  h.trans ⟨block, out₁.toList_append block⟩

theorem of_append {block : List Instr} (h : (out.append block).Before out₁) : out.Before out₁ :=
  ((refl out).append block).trans h

theorem of_number {count : Nat} (h : (out.number count).Before out₁) : out.Before out₁ := h

end Output.Before

namespace Context

variable {ctx : Context} {out out' : Output}

theorem before_of_expr {e : Expr} (h : ctx.expr e out = .ok out') : out.Before out' := by
  rw [expr_eq e h]
  exact (Output.Before.refl out).append _

theorem before_of_stmt {s : Stmt} (h : ctx.stmt s out = .ok out') : out.Before out' := by
  rw [stmt_eq s h]
  exact (Output.Before.refl out).append _

theorem before_of_stmts {body : Stmts} (h : ctx.stmts body out = .ok out') : out.Before out' := by
  rw [stmts_eq body h]
  exact (Output.Before.refl out).append _

theorem block_eq_stmts (ctx : Context) (b : Block) : ctx.block b = ctx.stmts b.body := by
  cases b
  funext out
  rfl

theorem otherwise_eq_stmts (ctx : Context) (no : Otherwise) :
    ctx.otherwise no = ctx.stmts no.body := by
  cases no with
  | none =>
    funext out
    rfl
  | some keyword b => exact ctx.block_eq_stmts b

/-- The statements are emitted between the one output and the other. -/
def Emits (ctx : Context) (body : Stmts) (out out' : Output) : Prop :=
  ∃ out₁ out₂, ctx.stmts body out₁ = .ok out₂ ∧ out.Before out₁ ∧ out₂.Before out'

theorem Emits.widen {body : Stmts} {out₁ out₂ : Output} (h : ctx.Emits body out₁ out₂)
    (hbefore : out.Before out₁) (hafter : out₂.Before out') : ctx.Emits body out out' := by
  obtain ⟨out₃, out₄, hbody, h₁, h₂⟩ := h
  exact ⟨out₃, out₄, hbody, hbefore.trans h₁, h₂.trans hafter⟩

section

variable {keyword left right : Span} {condition : Expr} {yes body : Block} {no : Otherwise}

theorem emits_of_branch
    (h : ctx.stmt (.branch keyword left condition right yes no) out = .ok out') :
    ctx.Emits no.body out out' ∧ ctx.Emits yes.body out out' := by
  obtain ⟨out₁, out₂, out₃, hcondition, hno, hyes, rfl⟩ := branch_eq_ok h
  rw [otherwise_eq_stmts] at hno
  rw [block_eq_stmts] at hyes
  have hcondition' := (before_of_expr hcondition).of_number
  have hno' := (before_of_stmts hno).of_append
  have hyes' := (before_of_stmts hyes).of_append
  have hlast := (Output.Before.refl out₃).append [.label ⟨.branchEnd, out.labels⟩]
  constructor
  · exact ⟨_, _, hno, hcondition'.append _, hyes'.append _⟩
  · exact ⟨_, _, hyes, (hcondition'.trans hno').append _, hlast⟩

theorem emits_of_loop (h : ctx.stmt (.loop keyword left condition right body) out = .ok out') :
    ctx.Emits body.body out out' := by
  obtain ⟨out₁, out₂, hcondition, hbody, rfl⟩ := loop_eq_ok h
  rw [block_eq_stmts] at hbody
  have hcondition' := (before_of_expr hcondition).of_append.of_number
  have hlast := (Output.Before.refl out₂).append
    [.goto ⟨.condition, out.labels⟩, .label ⟨.loopEnd, out.labels⟩]
  exact ⟨_, _, hbody, hcondition'.append _, hlast⟩

end

end Context

/-- Statements in others are emitted while these are. -/
theorem Stmts.Within.emits {ctx : Context} {body body' : Stmts} (hin : body'.Within body)
    {out out' : Output} (h : ctx.stmts body out = .ok out') : ctx.Emits body' out out' := by
  induction hin generalizing out out' with
  | refl => exact ⟨out, out', h, .refl _, .refl _⟩
  | rest _ ih =>
    obtain ⟨out₁, hstmt, hrest⟩ := bind_eq_ok_iff.1 h
    exact (ih hrest).widen (Context.before_of_stmt hstmt) (.refl _)
  | yes _ ih =>
    obtain ⟨out₁, hstmt, hrest⟩ := bind_eq_ok_iff.1 h
    obtain ⟨out₂, out₃, hyes, hbefore, hafter⟩ := (Context.emits_of_branch hstmt).2
    exact (ih hyes).widen hbefore (hafter.trans (Context.before_of_stmts hrest))
  | no _ ih =>
    obtain ⟨out₁, hstmt, hrest⟩ := bind_eq_ok_iff.1 h
    obtain ⟨out₂, out₃, hno, hbefore, hafter⟩ := (Context.emits_of_branch hstmt).1
    exact (ih hno).widen hbefore (hafter.trans (Context.before_of_stmts hrest))
  | loop _ ih =>
    obtain ⟨out₁, hstmt, hrest⟩ := bind_eq_ok_iff.1 h
    obtain ⟨out₂, out₃, hbody, hbefore, hafter⟩ := Context.emits_of_loop hstmt
    exact (ih hbody).widen hbefore (hafter.trans (Context.before_of_stmts hrest))

/-! ### Subroutines -/

namespace Generator

theorem foldl_emit (block : List Instr) (out : Output) :
    block.foldl Output.emit out = out.append block := by
  induction block generalizing out with
  | nil => simp
  | cons i block ih => simp [ih]

theorem labelsOf_header (sub : Subroutine) (scope : Scope) : labelsOf (header sub scope) = [] := by
  cases h : sub.kind <;> simp [header, prologue, h]

theorem subroutine_eq_ok {sub : Subroutine} {g g' : Generator} (h : subroutine sub g = .ok g') :
    openScope sub g.scope = .ok g'.scope ∧
      Context.stmts ⟨g'.scope, sub.kind⟩ sub.body.statements
        (g.output.append (header sub g'.scope)) = .ok g'.output := by
  rw [subroutine] at h
  split at h
  · simp at h
  next scope hscope =>
    rw [foldl_emit] at h
    split at h
    · simp at h
    next output hstmts =>
      obtain rfl := Except.ok.inj h
      exact ⟨hscope, hstmts⟩

/-- The code of a subroutine: what it does first, and then its statements. -/
def codeOf (sub : Subroutine) (g g' : Generator) : List Instr :=
  header sub g'.scope ++ Code.stmts ⟨g'.scope, sub.kind⟩ g.output.labels sub.body.statements

theorem output_eq_codeOf {sub : Subroutine} {g g' : Generator} (h : subroutine sub g = .ok g') :
    g'.output.code.toList = g.output.code.toList ++ codeOf sub g g' := by
  rw [Context.stmts_eq _ (subroutine_eq_ok h).2]
  simp [codeOf]

theorem labelsOf_codeOf_nodup (sub : Subroutine) (g g' : Generator) :
    (labelsOf (codeOf sub g g')).Nodup := by
  rw [codeOf, labelsOf_append, labelsOf_header, List.nil_append]
  exact (Code.stmts_numbered ..).1

end Generator

theorem Subroutine.terminals_statements_subset (sub : Subroutine) :
    sub.body.statements.terminals ⊆ sub.terminals := by
  intro x hx
  simp [Subroutine.terminals, Body.terminals, hx]

theorem ClassDecl.terminals_subroutine_subset {decl : ClassDecl} {sub : Subroutine}
    (h : sub ∈ decl.subroutines) : sub.terminals ⊆ decl.terminals := by
  intro x hx
  have hmem : x ∈ decl.subroutines.flatMap Subroutine.terminals := List.mem_flatMap.2 ⟨sub, h, hx⟩
  simp [ClassDecl.terminals, hmem]

theorem ClassDecl.terminals_statements_subset {decl : ClassDecl} {sub : Subroutine}
    (h : sub ∈ decl.subroutines) : sub.body.statements.terminals ⊆ decl.terminals :=
  List.Subset.trans sub.terminals_statements_subset (terminals_subroutine_subset h)

/-- The word for the current object is a keyword, so it is no name in a source. -/
theorem noThis_of_parseSource {unit source : String} {decl : ClassDecl}
    (h : parseSource unit source = .ok decl) : NoThis decl.terminals := by
  intro span hmem
  have hnone := ofText?_eq_none_of_mem_terminals h hmem
  exact absurd hnone (by decide)

/-- The statements have the code `block`, which comes behind the code of `start` and `front`. -/
def Context.EmitsAt (ctx : Context) (start : Output) (front block : List Instr) (body : Stmts) :
    Prop :=
  ∃ out out', ctx.stmts body out = .ok out' ∧ out.code.toList = start.code.toList ++ front ∧
    out'.code.toList = out.code.toList ++ block

theorem Context.Emits.exists_emitsAt {ctx : Context} {body : Stmts} {out out' : Output}
    {code : List Instr} (h : ctx.Emits body out out')
    (hcode : out'.code.toList = out.code.toList ++ code) :
    ∃ front block back, code = front ++ block ++ back ∧ ctx.EmitsAt out front block body := by
  obtain ⟨out₁, out₂, hbody, ⟨front, hfront⟩, ⟨back, hback⟩⟩ := h
  obtain ⟨block, hblock⟩ := before_of_stmts hbody
  refine ⟨front, block, back, ?_, out₁, out₂, hbody, hfront, hblock⟩
  rw [hback, hblock, hfront] at hcode
  simpa using hcode.symm

theorem Context.EmitsAt.standsAt {ctx : Context} {body : Stmts} {start : Output}
    {front block : List Instr} (h : ctx.EmitsAt start front block body) (back : List Instr) :
    ∃ n, block = Code.stmts ctx n body ∧
      StandsAt (front ++ block ++ back) front.length (Code.stmts ctx n body) := by
  obtain ⟨out, out', hbody, -, hblock⟩ := h
  obtain rfl : Code.stmts ctx out.labels body = block := by
    rw [stmts_eq body hbody] at hblock
    simpa using hblock
  exact ⟨_, rfl, front, back, rfl, rfl⟩

/-- In the code of a subroutine of a source, every list of statements has its place, and the machine
does there what the statements do. With an empty stack, and with the object of a method in its first
argument, it gets to the end of their code when they end normally, and to a return in it, with the
result on the stack, when they end with one; heap, static variables, locals, arguments and object
are then as they leave them. -/
theorem Generator.subroutine_follows_runs {unit source : String} {decl : ClassDecl}
    {sub : Subroutine} {g g' : Generator} {body : Stmts}
    (hparse : parseSource unit source = .ok decl) (hsub : sub ∈ decl.subroutines)
    (hscope : g.scope.Reachable) (h : subroutine sub g = .ok g')
    (hin : body.Within sub.body.statements) :
    let ctx : Context := ⟨g'.scope, sub.kind⟩
    ∃ code, g'.output.code.toList = g.output.code.toList ++ code ∧
      (∃ front block back, code = front ++ block ++ back ∧ ctx.EmitsAt g.output front block body) ∧
      ∀ front block back, code = front ++ block ++ back → ctx.EmitsAt g.output front block body →
        ∀ (answer : Answers Unit) (s t : State) (o : Outcome), Runs ctx.scope answer body s o t →
          s.frame.HoldsThis sub.kind → ∀ (temp : Temp) (that : Word),
            Arrives answer.onMachine code ⟨front.length, s.machine temp that []⟩
              front.length (front.length + block.length) [] t o := by
  intro ctx
  obtain ⟨hopen, hstmts⟩ := subroutine_eq_ok h
  have hfixes : ctx.FixesThis := openScope_fixesThis hopen hscope
  have hspares : NoThis body.terminals := (noThis_of_parseSource hparse).mono
    (List.Subset.trans hin.terminals_subset (ClassDecl.terminals_statements_subset hsub))
  have hlabels := labelsOf_codeOf_nodup sub g g'
  have hcode := output_eq_codeOf h
  have hemits : ctx.Emits body g.output g'.output :=
    (hin.emits hstmts).widen ((Output.Before.refl _).append _) (.refl _)
  refine ⟨codeOf sub g g', hcode, hemits.exists_emitsAt hcode, ?_⟩
  intro front block back heq hplace answer s t o hruns hthis temp that
  rw [heq] at hlabels ⊢
  obtain ⟨n, rfl, hat⟩ := hplace.standsAt back
  exact hruns.simulates hlabels hfixes hspares hthis hat

/-! ### A method that counts down -/

/-- A method that takes one off its argument as long as it is not zero, and returns its object. -/
def countDownSource : String :=
  "class A \x7b method A f(int n) \x7b while (n) \x7b let n = n - 1; \x7d return this; \x7d \x7d"

def countDownStep : Stmts :=
  let value : Expr := .mk (.var ⟨"n", ⟨50, 1⟩⟩) (.cons .sub ⟨52, 1⟩ (.integer 1 ⟨54, 1⟩) .nil)
  .cons (.assign ⟨42, 3⟩ ⟨"n", ⟨46, 1⟩⟩ none ⟨48, 1⟩ value ⟨55, 1⟩) .nil

def countDown : Subroutine :=
  let loop : Stmt := .loop ⟨30, 5⟩ ⟨36, 1⟩ (.mk (.var ⟨"n", ⟨37, 1⟩⟩) .nil) ⟨38, 1⟩
    (.mk ⟨40, 1⟩ countDownStep ⟨57, 1⟩)
  let result : Stmt := .finish ⟨59, 6⟩ (some (.mk (.named .this ⟨66, 4⟩) .nil)) ⟨70, 1⟩
  ⟨.method, ⟨10, 6⟩, .value (.object ⟨"A", ⟨17, 1⟩⟩), ⟨"f", ⟨19, 1⟩⟩, ⟨20, 1⟩,
    some ⟨⟨.primitive .int ⟨21, 3⟩, ⟨"n", ⟨25, 1⟩⟩⟩, []⟩, ⟨26, 1⟩,
    ⟨⟨28, 1⟩, [], .cons loop (.cons result .nil), ⟨72, 1⟩⟩⟩

def countDownClass : ClassDecl :=
  ⟨⟨0, 5⟩, ⟨"A", ⟨6, 1⟩⟩, ⟨8, 1⟩, [], [countDown], ⟨74, 1⟩⟩

def countDownScope : Scope :=
  ((Scope.empty "A").insert ⟨"this", "A", .argument, 0⟩).insert ⟨"n", "int", .argument, 1⟩

def countDownCode : List Instr :=
  [.function "A.f" 0, .push .argument 0, .pop .pointer 0,
    .label ⟨.condition, 0⟩, .push .argument 1, .ifGoto ⟨.holds, 0⟩, .goto ⟨.loopEnd, 0⟩,
    .label ⟨.holds, 0⟩, .push .argument 1, .push .constant 1, .op .sub, .pop .argument 1,
    .goto ⟨.condition, 0⟩, .label ⟨.loopEnd, 0⟩, .push .argument 0, .ret]

theorem parseSource_countDown : parseSource "A" countDownSource = .ok countDownClass :=
  parseSource_of_tokens (by decide +kernel) (by decide +kernel) (by decide)

theorem countDownScope_lookup : countDownScope.lookup "n" = some ⟨"n", "int", .argument, 1⟩ := by
  simp [countDownScope, Scope.insert, Scope.lookup, VarKind.level, Scope.empty]

theorem openScope_countDown : Generator.openScope countDown (.empty "A") = .ok countDownScope := by
  simp [Generator.openScope, Generator.declareThis, Generator.declareParams, Generator.declareVars,
    Generator.declare, Scope.define, Scope.obstacle?, countDown, countDownScope,
    Scope.startSubroutine, Scope.empty, VarKind.level, Scope.varsAt, Scope.countOf, Counts.get,
    Counts.zero, maxVariables, Scope.insert, Counts.increment, Separated.toList, VarType.name, bind,
    Except.bind, Primitive.keyword, Keyword.text]

theorem subroutine_countDown : Generator.subroutine countDown ⟨.empty "A", .empty⟩ =
    .ok ⟨countDownScope, ⟨countDownCode.toArray, 1⟩⟩ := by
  have hstmts : Context.stmts ⟨countDownScope, countDown.kind⟩ countDown.body.statements
      ⟨(countDownCode.take 3).toArray, 0⟩ = .ok ⟨countDownCode.toArray, 1⟩ := by
    simp [countDown, countDownStep, Context.stmts, Context.stmt, Context.block, Context.expr,
      Context.term, Context.opTerms, Context.resolve, countDownScope_lookup, Output.nextLabel,
      Output.append, bind, Except.bind, pure, Except.pure, BinaryOp.instr, Context.named, Context.this,
      countDownCode, Variable.push, Variable.pop, VarKind.segment]
  have hheader : Generator.header countDown countDownScope = countDownCode.take 3 := by rfl
  have hout : Output.empty.append (countDownCode.take 3) =
      ⟨(countDownCode.take 3).toArray, 0⟩ := rfl
  simp only [Generator.subroutine, openScope_countDown, hheader, Generator.foldl_emit, hout, hstmts]

/-- With 1 for its argument, the loop runs once. -/
theorem runs_countDown (answer : Answers Unit) (s : State) (h : s.frame.args 1 = 1) :
    Runs countDownScope answer countDown.body.statements s (.returned s.frame.this)
      ⟨{ s.frame with args := Function.update s.frame.args 1 0 }, s.memory⟩ := by
  have hn (frame : Frame) (g : Memory Unit) : countDownScope.value frame g "n" = frame.args 1 := by
    simp [Scope.value, countDownScope_lookup, Variable.value]
  have hstep : Runs countDownScope answer countDownStep s .normal
      ⟨{ s.frame with args := Function.update s.frame.args 1 0 }, s.memory⟩ := by
    refine .assign countDownScope_lookup ?_
    simp only [State.eval, Meaning.expr, Meaning.term, Meaning.opTerms, hn, h, BinaryOp.meaning,
      State.assign, BitVec.ofNat_eq_ofNat, BitVec.sub_self]
    exact .nil
  have hone : s.eval countDownScope answer (.mk (.var ⟨"n", ⟨37, 1⟩⟩) .nil) = (1, s.memory) := by
    simp [State.eval, Meaning.expr, Meaning.term, Meaning.opTerms, hn, h]
  refine .loopAgain hone (by simp) hstep (.loopEnd ?_ .finishValue)
  simp [State.eval, Meaning.expr, Meaning.term, Meaning.opTerms, hn]

/-- From behind its first instructions, the method returns its object. -/
theorem Generator.countDown_follows_run :
    let g : Generator := ⟨.empty "A", .empty⟩
    ∃ g', parseSource "A" countDownSource = .ok countDownClass ∧ g.scope.Reachable ∧
      subroutine countDown g = .ok g' ∧ g'.output.code.toList = countDownCode ∧
      ∀ (answer : Answers Unit) (s : State) (temp : Temp) (that : Word),
        s.frame.args 0 = s.frame.this → s.frame.args 1 = 1 →
          Arrives answer.onMachine countDownCode ⟨3, s.machine temp that []⟩
            3 countDownCode.length []
            ⟨{ s.frame with args := Function.update s.frame.args 1 0 }, s.memory⟩
            (.returned s.frame.this) := by
  intro g
  refine ⟨_, parseSource_countDown, .empty "A", subroutine_countDown, rfl, ?_⟩
  intro answer s temp that hthis hone
  have hplace : Context.EmitsAt ⟨countDownScope, .method⟩ g.output (countDownCode.take 3)
      (countDownCode.drop 3) countDown.body.statements :=
    ⟨_, _, (subroutine_eq_ok subroutine_countDown).2, rfl, rfl⟩
  obtain ⟨code, hcode, -, hfollows⟩ := subroutine_follows_runs parseSource_countDown
    (by simp [countDownClass]) (.empty "A") subroutine_countDown .refl
  obtain rfl : countDownCode = code := by simpa [Output.empty] using hcode
  exact hfollows _ _ [] rfl hplace answer s _ _ (runs_countDown answer s hone) (fun _ => hthis)
    temp that

end Jack
