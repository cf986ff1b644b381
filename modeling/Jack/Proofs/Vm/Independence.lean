import Jack.Proofs.Vm.Blocks
import Jack.Proofs.Vm.Sites
import Mathlib.Algebra.GroupWithZero.Nat

/-!
Subroutines are compiled independently. Of all that a generator holds, only the variables of the
class and the number of the next label matter for a subroutine. So the code of a class is put
together from the codes that its subroutines have alone, with their labels renumbered.
-/

namespace Jack

/-! ### Numbers of labels -/

def Label.renumber (k : Nat) (l : Label) : Label := { l with number := l.number + k }

/-- The instruction with the number of its label, if it has one, increased by `k`. -/
def Instr.renumber (k : Nat) : Instr → Instr
  | .label l => .label (l.renumber k)
  | .goto l => .goto (l.renumber k)
  | .ifGoto l => .ifGoto (l.renumber k)
  | i => i

namespace Instr

variable (k : Nat)

@[simp] theorem renumber_label (l : Label) : (label l).renumber k = label (l.renumber k) := rfl
@[simp] theorem renumber_goto (l : Label) : (goto l).renumber k = goto (l.renumber k) := rfl
@[simp] theorem renumber_ifGoto (l : Label) : (ifGoto l).renumber k = ifGoto (l.renumber k) := rfl
@[simp] theorem renumber_ret : ret.renumber k = ret := rfl

@[simp] theorem renumber_zero : renumber 0 = id := by
  funext i
  cases i <;> rfl

theorem renumber_of_isStraight {i : Instr} (h : i.isStraight = true) : i.renumber k = i := by
  cases i <;> first | rfl | simp [isStraight] at h

theorem isFunction_renumber (i : Instr) : (i.renumber k).isFunction = i.isFunction := by
  cases i <;> rfl

end Instr

theorem IsFunctionBlock.renumber {block : List Instr} (h : IsFunctionBlock block) (k : Nat) :
    IsFunctionBlock (block.map (Instr.renumber k)) := by
  obtain ⟨name, locals, body, rfl, hbody⟩ := h
  refine ⟨name, locals, body.map (Instr.renumber k), rfl, fun i hi => ?_⟩
  obtain ⟨j, hj, rfl⟩ := List.mem_map.1 hi
  rw [Instr.isFunction_renumber, hbody j hj]

theorem renumber_of_straight {k : Nat} {block : List Instr}
    (h : block.all Instr.isStraight = true) : block.map (Instr.renumber k) = block := by
  have hsame (i : Instr) (hi : i ∈ block) : i.renumber k = id i :=
    Instr.renumber_of_isStraight k (List.all_eq_true.1 h i hi)
  rw [List.map_congr_left hsame, List.map_id]

namespace Code

variable {ctx : Context} (k n : Nat)

mutual

/-- The number of the next label shows only in the numbers of labels. -/
theorem stmt_renumber : ∀ (n : Nat) (s : Stmt),
    (stmt ctx n s).map (Instr.renumber k) = stmt ctx (n + k) s
  | _, .assign _ target none _ value _ => by
    refine renumber_of_straight ?_
    rw [stmt, List.all_append, expr_straight value, List.all_cons, pop_straight]
    rfl
  | _, .assign _ target (some index) _ value _ => by
    refine renumber_of_straight ?_
    rw [stmt, List.all_cons, push_straight, List.all_append, offset_straight index, List.all_cons,
      List.all_append, expr_straight value]
    rfl
  | n, .branch _ _ condition _ yes no => by
    have hno := otherwise_renumber (n + 1) no
    have hyes := block_renumber (n + 1 + no.labelCount) yes
    have hnext : n + 1 + k = n + k + 1 := by omega
    have hnext' : n + 1 + no.labelCount + k = n + k + 1 + no.labelCount := by omega
    rw [hnext] at hno
    rw [hnext'] at hyes
    simp [stmt, renumber_of_straight (expr_straight condition), hno, hyes, Label.renumber]
  | n, .loop _ _ condition _ body => by
    have hbody := block_renumber (n + 1) body
    have hnext : n + 1 + k = n + k + 1 := by omega
    rw [hnext] at hbody
    simp [stmt, renumber_of_straight (expr_straight condition), hbody, Label.renumber]
  | _, .perform _ c _ => by
    refine renumber_of_straight ?_
    rw [stmt, List.all_append, call_straight c]
    rfl
  | _, .finish _ none _ => rfl
  | _, .finish _ (some value) _ => by
    rw [stmt, List.map_append, renumber_of_straight (expr_straight value)]
    rfl

theorem otherwise_renumber : ∀ (n : Nat) (no : Otherwise),
    (otherwise ctx n no).map (Instr.renumber k) = otherwise ctx (n + k) no
  | _, .none => rfl
  | n, .some _ b => block_renumber n b

theorem block_renumber : ∀ (n : Nat) (b : Block),
    (block ctx n b).map (Instr.renumber k) = block ctx (n + k) b
  | n, .mk _ body _ => stmts_renumber n body

theorem stmts_renumber : ∀ (n : Nat) (body : Stmts),
    (stmts ctx n body).map (Instr.renumber k) = stmts ctx (n + k) body
  | _, .nil => rfl
  | n, .cons s rest => by
    have hrest := stmts_renumber (n + s.labelCount) rest
    have hnext : n + s.labelCount + k = n + k + s.labelCount := by omega
    rw [hnext] at hrest
    rw [stmts, List.map_append, stmt_renumber n s, hrest, stmts]

end

end Code

/-! ### What a subroutine leaves behind -/

theorem Scope.startSubroutine_define (scope : Scope) (name type : String) {kind : VarKind}
    (hlevel : kind.level = .subroutineLevel) :
    (scope.define name type kind).2.startSubroutine = scope.startSubroutine := by
  refine define_keeps (P := fun after => after.startSubroutine = scope.startSubroutine) rfl ?_
  cases kind <;> first | rfl | simp [VarKind.level] at hlevel

namespace Generator

section

variable {scope scope' : Scope} {sub : Subroutine}

theorem declare_startSubroutine {type : String} {kind : VarKind} {names : List Ident}
    (hlevel : kind.level = .subroutineLevel) (h : declare type kind names scope = .ok scope') :
    scope'.startSubroutine = scope.startSubroutine := by
  induction names generalizing scope with
  | nil => rw [Except.ok.inj h]
  | cons name names ih =>
    have hafter := scope.startSubroutine_define name.name type hlevel
    rw [declare] at h
    split at h
    next heq =>
      rw [heq] at hafter
      exact (ih h).trans hafter
    next => simp at h

theorem declareParams_startSubroutine {params : List Param}
    (h : declareParams params scope = .ok scope') :
    scope'.startSubroutine = scope.startSubroutine := by
  induction params generalizing scope with
  | nil => rw [Except.ok.inj h]
  | cons p params ih =>
    obtain ⟨scope₁, hname, hrest⟩ := bind_eq_ok_iff.1 h
    exact (ih hrest).trans (declare_startSubroutine rfl hname)

theorem declareVars_startSubroutine {decs : List VarDec} (h : declareVars decs scope = .ok scope') :
    scope'.startSubroutine = scope.startSubroutine := by
  induction decs generalizing scope with
  | nil => rw [Except.ok.inj h]
  | cons dec decs ih =>
    obtain ⟨scope₁, hnames, hrest⟩ := bind_eq_ok_iff.1 h
    exact (ih hrest).trans (declare_startSubroutine rfl hnames)

theorem declareThis_startSubroutine (h : declareThis sub scope = .ok scope') :
    scope'.startSubroutine = scope.startSubroutine := by
  have hlevel : VarKind.argument.level = .subroutineLevel := rfl
  have hafter := scope.startSubroutine_define "this" scope.className hlevel
  rw [declareThis] at h
  split at h
  · split at h
    next heq =>
      rw [heq] at hafter
      rw [← Except.ok.inj h, hafter]
    next => simp at h
  · rw [Except.ok.inj h]

/-- The next subroutine starts with the same scope as this one. -/
theorem openScope_startSubroutine (h : openScope sub scope = .ok scope') :
    scope'.startSubroutine = scope.startSubroutine := by
  obtain ⟨scope₁, hthis, hrest⟩ := bind_eq_ok_iff.1 h
  obtain ⟨scope₂, hparams, hvars⟩ := bind_eq_ok_iff.1 hrest
  calc
    scope'.startSubroutine = scope₂.startSubroutine := declareVars_startSubroutine hvars
    _ = scope₁.startSubroutine := declareParams_startSubroutine hparams
    _ = scope.startSubroutine.startSubroutine := declareThis_startSubroutine hthis
    _ = scope.startSubroutine := rfl

theorem openScope_congr (h : scope.startSubroutine = scope'.startSubroutine) :
    openScope sub scope = openScope sub scope' := by
  rw [openScope, h, openScope]

end

variable {sub : Subroutine} {g g' start : Generator}

theorem subroutine_startSubroutine (h : subroutine sub g = .ok g') :
    g'.scope.startSubroutine = g.scope.startSubroutine :=
  openScope_startSubroutine (subroutine_eq_ok h).1

theorem stmts_of_other_output {ctx : Context} {body : Stmts} {out out' : Output}
    (h : ctx.stmts body out = .ok out') (other : Output) :
    ctx.stmts body other =
      .ok ((other.append (Code.stmts ctx other.labels body)).number body.labelCount) := by
  have herror : errorOf Stop.error (ctx.stmts body other) = none := by
    rw [Context.stmts_errorOf, ← Context.stmts_errorOf ctx body out, h]
    rfl
  cases hother : ctx.stmts body other with
  | error stop => simp [hother, errorOf] at herror
  | ok out₁ => rw [Context.stmts_eq body hother]

/-- What a subroutine is compiled to behind one generator, it is compiled to behind any other one
with the same variables of the class, up to the numbers of the labels. -/
theorem subroutine_of_other_start (h : subroutine sub start = .ok g')
    (hscope : g.scope.startSubroutine = start.scope.startSubroutine) :
    subroutine sub g = .ok ⟨g'.scope, (g.output.append
      (codeOf sub g g')).number sub.body.statements.labelCount⟩ := by
  obtain ⟨hopen, hstmts⟩ := subroutine_eq_ok h
  rw [← openScope_congr hscope] at hopen
  have hother := stmts_of_other_output hstmts (g.output.append (header sub g'.scope))
  simp only [subroutine, hopen, foldl_emit, hother]
  simp [codeOf]

theorem header_renumber (k : Nat) (sub : Subroutine) (scope : Scope) :
    (header sub scope).map (Instr.renumber k) = header sub scope := by
  rw [header]
  cases sub.kind <;> rfl

theorem codeOf_renumber {before : Generator} (hlabels : before.output.labels = 0)
    (sub : Subroutine) (g g' : Generator) :
    (codeOf sub before g').map (Instr.renumber g.output.labels) = codeOf sub g g' := by
  rw [codeOf, List.map_append, header_renumber, Code.stmts_renumber, hlabels, Nat.zero_add, codeOf]

end Generator

/-! ### Classes -/

def Subroutine.labelCount (sub : Subroutine) : Nat := sub.body.statements.labelCount

/-- The codes of subroutines with their labels renumbered: each one starts behind as many numbers as
there are branches and loops in the subroutines before it, and `n` more. -/
def linkBlocks (block : Subroutine → List Instr) (n : Nat) (subs : List Subroutine) :
    List (List Instr) :=
  subs.mapIdx fun i sub =>
    (block sub).map (Instr.renumber (n + ((subs.take i).map Subroutine.labelCount).sum))

theorem linkBlocks_cons (block : Subroutine → List Instr) (n : Nat) (sub : Subroutine)
    (subs : List Subroutine) : linkBlocks block n (sub :: subs) =
      (block sub).map (Instr.renumber n) :: linkBlocks block (n + sub.labelCount) subs := by
  simp [linkBlocks, List.mapIdx_cons, Nat.add_assoc]

theorem functionBlocks_linkBlocks {block : Subroutine → List Instr} {subs : List Subroutine}
    (h : ∀ sub ∈ subs, IsFunctionBlock (block sub)) (n : Nat) :
    functionBlocks (linkBlocks block n subs).flatten = linkBlocks block n subs := by
  refine functionBlocks_flatten fun linked hlinked => ?_
  obtain ⟨i, hi, rfl⟩ := List.mem_mapIdx.1 hlinked
  exact (h _ (List.getElem_mem hi)).renumber _

namespace Generator

variable {decl : ClassDecl} {scope : Scope} {start g g' : Generator} {subs : List Subroutine}

/-- What is compiled behind others is compiled from the start, too. -/
theorem CompiledIn.subroutine_of_mem {stages : List Stage} {sub : Subroutine}
    (h : CompiledIn decl scope stages g) (hsub : sub ∈ decl.subroutines) :
    ∃ after, subroutine sub ⟨scope, .empty⟩ = .ok after := by
  rw [← h.subs] at hsub
  obtain ⟨stage, hstage, rfl⟩ := List.mem_map.1 hsub
  have hkeeps (stage : Stage)
      (hbefore : stage.before.scope.startSubroutine = scope.startSubroutine) :
      stage.after.scope.startSubroutine = scope.startSubroutine :=
    (subroutine_startSubroutine stage.compiles).trans hbefore
  have hbefore := h.leads.keeps
    (P := fun g => g.scope.startSubroutine = scope.startSubroutine) hkeeps rfl stage hstage
  exact ⟨_, subroutine_of_other_start stage.compiles hbefore.symm⟩

/-- Subroutines that are compiled from the start are compiled one behind the other, with the codes
that they have alone. -/
theorem subroutines_linkBlocks {after : Subroutine → Generator} (hlabels : start.output.labels = 0)
    (h : ∀ sub ∈ subs, subroutine sub start = .ok (after sub))
    (hscope : g.scope.startSubroutine = start.scope.startSubroutine) :
    ∃ g', (∀ begun, subroutines begun subs g = .ok g') ∧
      g'.output.code.toList = g.output.code.toList ++
        (linkBlocks (fun sub => codeOf sub start (after sub)) g.output.labels subs).flatten := by
  induction subs generalizing g with
  | nil => exact ⟨g, fun _ => rfl, by simp [linkBlocks]⟩
  | cons sub subs ih =>
    obtain ⟨hsub, hsubs⟩ := List.forall_mem_cons.1 h
    have hfirst := subroutine_of_other_start hsub hscope
    have hnext := (subroutine_startSubroutine hfirst).trans hscope
    obtain ⟨g', hrest, hcode⟩ := ih hsubs hnext
    refine ⟨g', fun begun => ?_, ?_⟩
    · simp only [subroutines, hfirst, hrest]
    · rw [hcode, linkBlocks_cons, codeOf_renumber hlabels]
      simp [Subroutine.labelCount]

/-- A class has the linked codes of its subroutines, if each of these is compiled with the variables
of the class. -/
theorem compile_eq_linkBlocks {after : Subroutine → Generator}
    (hvars : declareClassVars decl.vars (.empty decl.name.name) = .ok scope)
    (hsubs : ∀ sub ∈ subs, subroutine sub ⟨scope, .empty⟩ = .ok (after sub)) :
    (compile { decl with subroutines := subs } .empty).1 = .ok
      (linkBlocks (fun sub => codeOf sub ⟨scope, .empty⟩ (after sub)) 0 subs).flatten := by
  have hempty : { empty.scope with className := decl.name.name } = Scope.empty decl.name.name := rfl
  obtain ⟨g', hrun, hcode⟩ := subroutines_linkBlocks (g := ⟨scope, .empty⟩) rfl hsubs rfl
  have hclass : classDecl { decl with subroutines := subs } .empty = .ok g' := by
    rw [classDecl, hempty, hvars]
    exact hrun 0
  rw [compile, hclass]
  simp [hcode, Output.empty]

/-- The code of a class is put together from the codes that its subroutines have alone, and so is
that of the class with its subroutines in another order. The codes differ in the numbers of the
labels only. -/
theorem compile_links_subroutines {code : List Instr} (h : (compile decl .empty).1 = .ok code) :
    ∃ block : Subroutine → List Instr,
      (∀ sub ∈ decl.subroutines,
        (compile { decl with subroutines := [sub] } .empty).1 = .ok (block sub)) ∧
      code = (linkBlocks block 0 decl.subroutines).flatten ∧
      ∀ subs : List Subroutine, subs.Perm decl.subroutines → ∃ code',
        (compile { decl with subroutines := subs } .empty).1 = .ok code' ∧
          code' = (linkBlocks block 0 subs).flatten ∧
          functionBlocks code' = linkBlocks block 0 subs := by
  obtain ⟨g, hclass⟩ : ∃ g, classDecl decl .empty = .ok g := by
    rw [compile] at h
    cases hclass : classDecl decl .empty with
    | ok g => exact ⟨g, rfl⟩
    | error failure => simp [hclass] at h
  obtain ⟨scope, stages, hin⟩ := exists_compiledIn hclass
  let start : Generator := ⟨scope, .empty⟩
  let after (sub : Subroutine) : Generator := (subroutine sub start).toOption.getD start
  have hafter (sub : Subroutine) (hsub : sub ∈ decl.subroutines) :
      subroutine sub start = .ok (after sub) := by
    obtain ⟨g', hg'⟩ := hin.subroutine_of_mem hsub
    simp [after, start, hg', Except.toOption]
  let block (sub : Subroutine) : List Instr := codeOf sub start (after sub)
  have hblock (sub : Subroutine) (hsub : sub ∈ decl.subroutines) : IsFunctionBlock (block sub) :=
    (Stage.mk sub start (after sub) (hafter sub hsub)).isFunctionBlock
  refine ⟨block, fun sub hsub => ?_, ?_, fun subs hperm => ?_⟩
  · have hcode := compile_eq_linkBlocks hin.vars (List.forall_mem_singleton.2 (hafter sub hsub))
    simpa [linkBlocks] using hcode
  · have hcode := compile_eq_linkBlocks hin.vars hafter
    exact Except.ok.inj (h.symm.trans hcode)
  · have hsubs (sub : Subroutine) (hsub : sub ∈ subs) := hafter sub (hperm.subset hsub)
    have hblocks (sub : Subroutine) (hsub : sub ∈ subs) := hblock sub (hperm.subset hsub)
    exact ⟨_, compile_eq_linkBlocks hin.vars hsubs, rfl, functionBlocks_linkBlocks hblocks 0⟩

end Generator

/-! ### Two subroutines in either order -/

/-- A function that never returns. -/
def spin : Subroutine :=
  let loop : Stmt := .loop ⟨95, 5⟩ ⟨101, 1⟩ (.mk (.named .true ⟨102, 4⟩) .nil) ⟨106, 1⟩
    (.mk ⟨108, 1⟩ .nil ⟨110, 1⟩)
  ⟨.function, ⟨75, 8⟩, .void ⟨84, 4⟩, ⟨"g", ⟨89, 1⟩⟩, ⟨90, 1⟩, none, ⟨91, 1⟩,
    ⟨⟨93, 1⟩, [], .cons loop .nil, ⟨112, 1⟩⟩⟩

/-- The code of the function, when `n` is the number of the next label. -/
def spinCode (n : Nat) : List Instr :=
  [.function "A.g" 0, .label ⟨.condition, n⟩, .push .constant 1, .op .neg, .ifGoto ⟨.holds, n⟩,
    .goto ⟨.loopEnd, n⟩, .label ⟨.holds, n⟩, .goto ⟨.condition, n⟩, .label ⟨.loopEnd, n⟩]

namespace Generator

theorem compile_spin :
    (compile { countDownClass with subroutines := [spin] } .empty).1 = .ok (spinCode 0) := rfl

theorem compile_countDown : (compile countDownClass .empty).1 = .ok countDownCode := by
  have hrun : subroutines 0 [countDown] ⟨.empty "A", .empty⟩ =
      .ok ⟨countDownScope, ⟨countDownCode.toArray, 1⟩⟩ := by
    simp only [subroutines, subroutine_countDown]
  have hclass : classDecl countDownClass .empty =
      .ok ⟨countDownScope, ⟨countDownCode.toArray, 1⟩⟩ := hrun
  rw [compile, hclass]

theorem compile_countDown_spin :
    (compile { countDownClass with subroutines := [countDown, spin] } .empty).1 =
      .ok (countDownCode ++ spinCode 1) := by
  have hspin : subroutine spin ⟨countDownScope, ⟨countDownCode.toArray, 1⟩⟩ =
      .ok ⟨countDownScope.startSubroutine, ⟨(countDownCode ++ spinCode 1).toArray, 2⟩⟩ := rfl
  have hrun : subroutines 0 [countDown, spin] ⟨.empty "A", .empty⟩ =
      .ok ⟨countDownScope.startSubroutine, ⟨(countDownCode ++ spinCode 1).toArray, 2⟩⟩ := by
    simp only [subroutines, subroutine_countDown, hspin]
  have hclass : classDecl { countDownClass with subroutines := [countDown, spin] } .empty =
      .ok ⟨countDownScope.startSubroutine, ⟨(countDownCode ++ spinCode 1).toArray, 2⟩⟩ := hrun
  rw [compile, hclass]

/-- In the other order, the numbers of the labels are exchanged. -/
theorem compile_spin_countDown :
    (compile { countDownClass with subroutines := [countDown, spin] } .empty).1 =
        .ok (countDownCode ++ spinCode 1) ∧
      (compile { countDownClass with subroutines := [spin, countDown] } .empty).1 =
        .ok (spinCode 0 ++ countDownCode.map (Instr.renumber 1)) := by
  obtain ⟨block, halone, -, hperm⟩ := compile_links_subroutines compile_countDown_spin
  have hcountDown : block countDown = countDownCode :=
    Except.ok.inj ((halone countDown (by simp)).symm.trans compile_countDown)
  have hspin : block spin = spinCode 0 :=
    Except.ok.inj ((halone spin (by simp)).symm.trans compile_spin)
  obtain ⟨code, hcode, rfl, -⟩ := hperm [spin, countDown] (List.Perm.swap ..)
  have hcount : spin.labelCount = 1 := rfl
  refine ⟨compile_countDown_spin, hcode.trans ?_⟩
  simp [linkBlocks, hcountDown, hspin, hcount]

end Generator

end Jack
