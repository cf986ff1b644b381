import Mathlib.Data.List.SplitBy
import Jack.Compile
import Jack.Proofs.Vm.Heights
import Jack.Proofs.Vm.SubroutineRun

/-!
The code of a class, a block for each function. A class is compiled in stages, one for each of its
subroutines, and every stage adds one block: `function` comes first in it, and nowhere else.
-/

namespace Jack

/-! ### Function blocks -/

def Instr.isFunction : Instr → Bool
  | .function _ _ => true
  | _ => false

/-- The code cut in front of every `function`. -/
def functionBlocks (code : List Instr) : List (List Instr) :=
  code.splitBy fun _ i => !i.isFunction

/-- The block has `function` in front and nowhere else. -/
def IsFunctionBlock (block : List Instr) : Prop :=
  ∃ name locals body, block = .function name locals :: body ∧ ∀ i ∈ body, i.isFunction = false

theorem IsFunctionBlock.isChain {block : List Instr} (h : IsFunctionBlock block) :
    block.IsChain fun _ i => !i.isFunction := by
  obtain ⟨name, locals, body, rfl, hbody⟩ := h
  generalize Instr.function name locals = first
  induction body generalizing first with
  | nil => exact .singleton _
  | cons i body ih =>
    refine .cons_cons ?_ (ih (fun j hj => hbody j (List.mem_cons_of_mem i hj)) i)
    simp [hbody i List.mem_cons_self]

theorem functionBlocks_flatten {blocks : List (List Instr)}
    (h : ∀ block ∈ blocks, IsFunctionBlock block) : functionBlocks blocks.flatten = blocks := by
  have hne (block : List Instr) (hblock : block ∈ blocks) : block ≠ [] := by
    obtain ⟨name, locals, body, rfl, -⟩ := h block hblock
    simp
  refine List.splitBy_flatten (fun hnil => hne [] hnil rfl)
    (fun block hblock => (h block hblock).isChain) ?_
  refine List.Pairwise.isChain (List.pairwise_of_forall_mem_list fun block hblock next hnext => ?_)
  refine ⟨hne block hblock, hne next hnext, ?_⟩
  obtain ⟨name, locals, body, rfl, -⟩ := h next hnext
  rfl

theorem isFunction_eq_false_of_endHeight? {block : List Instr} {h h' : Nat}
    (hblock : endHeight? block h = some h') : ∀ i ∈ block, i.isFunction = false := by
  induction block generalizing h with
  | nil => simp
  | cons i block ih =>
    obtain ⟨h₁, hi, hrest⟩ := Option.bind_eq_some_iff.1 hblock
    intro j hj
    rcases List.mem_cons.1 hj with rfl | hj
    · have hmay := Instr.mayStandAt_of_heightAfter? hi
      cases j <;> first | rfl | simp [Instr.mayStandAt] at hmay
    · exact ih hrest j hj

/-! ### Stages -/

namespace Generator

/-- A subroutine, with the generator before and after it is compiled. -/
structure Stage where
  sub : Subroutine
  before : Generator
  after : Generator
  compiles : subroutine sub before = .ok after

namespace Stage

def ctx (stage : Stage) : Context := ⟨stage.after.scope, stage.sub.kind⟩

def code (stage : Stage) : List Instr := codeOf stage.sub stage.before stage.after

/-- What a subroutine does first, without the `function` in front, and then its statements. -/
def body (stage : Stage) : List Instr :=
  prologue stage.sub.kind stage.after.scope ++
    Code.stmts stage.ctx stage.before.output.labels stage.sub.body.statements

theorem code_eq (stage : Stage) : stage.code =
    .function (qualifiedName stage.after.scope.className stage.sub.name.name)
      (stage.after.scope.countOf .localVar) :: stage.body := rfl

theorem output_eq (stage : Stage) :
    stage.after.output.code.toList = stage.before.output.code.toList ++ stage.code :=
  output_eq_codeOf stage.compiles

theorem endHeight?_body (stage : Stage) : endHeight? stage.body 0 = some 0 := by
  have hprologue : endHeight? (prologue stage.sub.kind stage.after.scope) 0 = some 0 := by
    cases stage.sub.kind <;> rfl
  rw [body, endHeight?_append, hprologue, Option.bind_some, Code.stmts_height]

theorem isFunctionBlock (stage : Stage) : IsFunctionBlock stage.code :=
  ⟨_, _, _, stage.code_eq, isFunction_eq_false_of_endHeight? stage.endHeight?_body⟩

end Stage

/-- The stages lead from the one generator to the other, each from where the one before ends. -/
def Leads (g : Generator) : List Stage → Generator → Prop
  | [], g' => g = g'
  | stage :: stages, g' => stage.before = g ∧ Leads stage.after stages g'

theorem exists_leads {begun : Nat} {subs : List Subroutine} {g g' : Generator}
    (h : subroutines begun subs g = .ok g') :
    ∃ stages, stages.map Stage.sub = subs ∧ Leads g stages g' := by
  induction subs generalizing begun g with
  | nil => exact ⟨[], rfl, Except.ok.inj h⟩
  | cons sub subs ih =>
    rw [subroutines] at h
    split at h
    · simp at h
    next g₁ hsub =>
      obtain ⟨stages, hsubs, hleads⟩ := ih h
      exact ⟨⟨sub, g, g₁, hsub⟩ :: stages, by simp [hsubs], rfl, hleads⟩

namespace Leads

variable {g g' : Generator} {stages : List Stage}

/-- What each stage keeps holds before every one of them. -/
theorem keeps {P : Generator → Prop} (hstep : ∀ stage : Stage, P stage.before → P stage.after)
    (h : Leads g stages g') (hg : P g) : ∀ stage ∈ stages, P stage.before := by
  induction stages generalizing g with
  | nil => simp
  | cons first stages ih =>
    obtain ⟨rfl, hrest⟩ := h
    intro stage hstage
    rcases List.mem_cons.1 hstage with rfl | hstage
    · exact hg
    · exact ih hrest (hstep first hg) stage hstage

theorem output_eq (h : Leads g stages g') : g'.output.code.toList =
    g.output.code.toList ++ (stages.map Stage.code).flatten := by
  induction stages generalizing g with
  | nil => simp [show g = g' from h]
  | cons stage stages ih =>
    obtain ⟨rfl, hrest⟩ := h
    rw [ih hrest, stage.output_eq]
    simp

end Leads

/-- The stages in which a class is compiled from the start: its variables are declared, and then its
subroutines come in turn. -/
structure CompiledIn (decl : ClassDecl) (scope : Scope) (stages : List Stage) (g : Generator) :
    Prop where
  vars : declareClassVars decl.vars (.empty decl.name.name) = .ok scope
  subs : stages.map Stage.sub = decl.subroutines
  leads : Leads ⟨scope, .empty⟩ stages g

theorem exists_compiledIn {decl : ClassDecl} {g : Generator}
    (h : classDecl decl .empty = .ok g) : ∃ scope stages, CompiledIn decl scope stages g := by
  rw [classDecl] at h
  split at h
  · simp at h
  next scope hvars =>
    obtain ⟨stages, hsubs, hleads⟩ := exists_leads h
    exact ⟨scope, stages, hvars, hsubs, hleads⟩

theorem CompiledIn.output_eq {decl : ClassDecl} {scope : Scope} {stages : List Stage}
    {g : Generator} (h : CompiledIn decl scope stages g) :
    g.output.code.toList = (stages.map Stage.code).flatten := by
  simpa [Output.empty] using h.leads.output_eq

end Generator

open Generator in
/-- A source that is compiled has a block of code for each stage. -/
theorem exists_stages_of_compileSource {unit source : String} {code : List Instr}
    (h : compileSource unit source = .ok code) :
    ∃ decl scope stages g, parseSource unit source = .ok decl ∧ CompiledIn decl scope stages g ∧
      code = g.output.code.toList ∧ functionBlocks code = stages.map Stage.code := by
  obtain ⟨decl, hparse, hcompile⟩ := bind_eq_ok_iff.1 h
  rw [compile] at hcompile
  cases hclass : classDecl decl .empty with
  | error failure => simp [hclass] at hcompile
  | ok g =>
    simp only [hclass, Except.ok.injEq] at hcompile
    obtain ⟨scope, stages, hstages⟩ := exists_compiledIn hclass
    refine ⟨decl, scope, stages, g, hparse, hstages, hcompile.symm, ?_⟩
    rw [← hcompile, hstages.output_eq]
    refine functionBlocks_flatten fun block hblock => ?_
    obtain ⟨stage, -, rfl⟩ := List.mem_map.1 hblock
    exact stage.isFunctionBlock

theorem compileSource_countDown : compileSource "A" countDownSource = .ok countDownCode := by
  have hclass : Generator.classDecl countDownClass .empty =
      .ok ⟨countDownScope, ⟨countDownCode.toArray, 1⟩⟩ := by
    have hsub := subroutine_countDown
    simp only [Scope.empty] at hsub
    simp [Generator.classDecl, countDownClass, Generator.declareClassVars, Generator.subroutines,
      Generator.empty, Scope.empty, hsub]
  simp [compileSource, parseSource_countDown, Generator.compile, hclass, bind, Except.bind]

end Jack
