import Mathlib.Data.List.Nodup
import Jack.Proofs.Vm.Blocks
import Jack.Proofs.Vm.Stops

/-!
Labels and jumps of compiled classes. A label is placed once in all that a generator emits, over any
number of classes and whether or not they have errors; and the jumps of a function stay inside it.
-/

namespace Jack

/-! ### Jumps of statements -/

namespace Code

variable {ctx : Context}

@[simp] theorem targetsOf_expr (e : Expr) : targetsOf (expr ctx e) = [] :=
  targetsOf_eq_nil (expr_straight e)

@[simp] theorem targetsOf_offset (index : Index) : targetsOf (offset ctx index) = [] :=
  targetsOf_eq_nil (offset_straight index)

@[simp] theorem targetsOf_call (c : Call) : targetsOf (call ctx c) = [] :=
  targetsOf_eq_nil (call_straight c)

@[simp] theorem target?_push (name : Ident) : (push ctx name).target? = none :=
  Instr.target?_eq_none (push_straight name)

@[simp] theorem target?_pop (name : Ident) : (pop ctx name).target? = none :=
  Instr.target?_eq_none (pop_straight name)

section

variable (keyword left right : Span) (condition : Expr) (yes body : Block) (no : Otherwise) (n : Nat)

theorem targetsOf_branch : targetsOf (stmt ctx n (.branch keyword left condition right yes no)) =
    ⟨.holds, n⟩ :: (targetsOf (otherwise ctx (n + 1) no) ++ ⟨.branchEnd, n⟩ ::
      targetsOf (block ctx (n + 1 + no.labelCount) yes)) := by
  simp [stmt]

theorem targetsOf_loop : targetsOf (stmt ctx n (.loop keyword left condition right body)) =
    ⟨.holds, n⟩ :: ⟨.loopEnd, n⟩ ::
      (targetsOf (block ctx (n + 1) body) ++ [⟨.condition, n⟩]) := by
  simp [stmt]

end

mutual

/-- Statements jump to their own labels only. -/
theorem stmt_closed : ∀ (s : Stmt) (n : Nat), targetsOf (stmt ctx n s) ⊆ labelsOf (stmt ctx n s)
  | .assign _ target none _ value _, n => by simp [stmt]
  | .assign _ target (some index) _ value _, n => by simp [stmt]
  | .branch _ _ condition _ yes no, n => by
    have hno := otherwise_closed no (n + 1)
    have hyes := block_closed yes (n + 1 + no.labelCount)
    rw [targetsOf_branch, labelsOf_branch]
    intro l hl
    simp only [List.mem_cons, List.mem_append] at hl ⊢
    rcases hl with rfl | hl | rfl | hl
    · simp
    · simp [hno hl]
    · simp
    · simp [hyes hl]
  | .loop _ _ condition _ body, n => by
    have hbody := block_closed body (n + 1)
    rw [targetsOf_loop, labelsOf_loop]
    intro l hl
    simp only [List.mem_cons, List.mem_append, List.not_mem_nil, or_false] at hl ⊢
    rcases hl with rfl | rfl | hl | rfl
    · simp
    · simp
    · simp [hbody hl]
    · simp
  | .perform _ c _, n => by simp [stmt]
  | .finish _ none _, n => by simp [stmt]
  | .finish _ (some value) _, n => by simp [stmt]

theorem otherwise_closed : ∀ (no : Otherwise) (n : Nat),
    targetsOf (otherwise ctx n no) ⊆ labelsOf (otherwise ctx n no)
  | .none, _ => List.nil_subset _
  | .some _ b, n => block_closed b n

theorem block_closed : ∀ (b : Block) (n : Nat), targetsOf (block ctx n b) ⊆ labelsOf (block ctx n b)
  | .mk _ body _, n => stmts_closed body n

theorem stmts_closed : ∀ (body : Stmts) (n : Nat),
    targetsOf (stmts ctx n body) ⊆ labelsOf (stmts ctx n body)
  | .nil, _ => List.nil_subset _
  | .cons s rest, n => by
    have hs := stmt_closed s n
    have hrest := stmts_closed rest (n + s.labelCount)
    rw [stmts, targetsOf_append, labelsOf_append]
    intro l hl
    rcases List.mem_append.1 hl with hl | hl
    · exact List.mem_append_left _ (hs hl)
    · exact List.mem_append_right _ (hrest hl)

end

end Code

/-! ### Labels that are added -/

/-- The code is added to, and the labels there have numbers that were taken meanwhile, each its own
label. -/
def Adds (code : List Instr) (n : Nat) (code' : List Instr) (n' : Nat) : Prop :=
  n ≤ n' ∧ ∃ block, code' = code ++ block ∧ Code.Numbered (labelsOf block) n n'

namespace Adds

variable {code code₁ code₂ block : List Instr} {n n₁ n₂ : Nat}

theorem refl (code : List Instr) (n : Nat) : Adds code n code n :=
  ⟨Nat.le_refl n, [], by simp, .nil⟩

theorem trans (h₁ : Adds code n code₁ n₁) (h₂ : Adds code₁ n₁ code₂ n₂) : Adds code n code₂ n₂ := by
  obtain ⟨hle₁, block₁, rfl, hlabels₁⟩ := h₁
  obtain ⟨hle₂, block₂, rfl, hlabels₂⟩ := h₂
  refine ⟨Nat.le_trans hle₁ hle₂, block₁ ++ block₂, by simp, ?_⟩
  rw [labelsOf_append]
  exact hlabels₁.append hlabels₂ hle₁ hle₂

theorem prepend (h : Adds code n code₁ n₁) (front : List Instr) :
    Adds (front ++ code) n (front ++ code₁) n₁ := by
  obtain ⟨hle, block, rfl, hlabels⟩ := h
  exact ⟨hle, block, by simp, hlabels⟩

end Adds

namespace Generator

/-- What the one generator emits until it is the other. -/
def Emits (g g' : Generator) : Prop :=
  Adds g.output.code.toList g.output.labels g'.output.code.toList g'.output.labels

theorem subroutine_leaves_emits (sub : Subroutine) (g : Generator) :
    Leaves Prod.snd g.Emits (subroutine sub g) := by
  rw [subroutine]
  split
  · exact .refl ..
  next scope hscope =>
    rw [foldl_emit]
    have hnumbered : Code.Numbered (labelsOf (Code.stmts ⟨scope, sub.kind⟩ g.output.labels
        sub.body.statements)) _ _ := Code.stmts_numbered sub.body.statements g.output.labels
    split
    next stop hstop =>
      obtain ⟨block, count, hblock, hout, hlt⟩ := Context.stmts_stop _ hstop
      have hlabels : labelsOf block <+: labelsOf _ := hblock.filterMap Instr.label?
      refine ⟨by simp [hout], header sub scope ++ block, by simp [hout], ?_⟩
      rw [labelsOf_append, labelsOf_header, List.nil_append]
      refine ⟨hlabels.sublist.nodup hnumbered.1, fun l hl => ?_⟩
      have hle := (hnumbered.2 l (hlabels.subset hl)).1
      exact ⟨hle, by simpa [hout] using hlt l hl⟩
    next output hok =>
      rw [Context.stmts_eq _ hok]
      refine ⟨by simp, header sub scope ++ Code.stmts ⟨scope, sub.kind⟩ g.output.labels
        sub.body.statements, by simp, ?_⟩
      rw [labelsOf_append, labelsOf_header, List.nil_append]
      exact hnumbered

theorem subroutines_leaves_emits (begun : Nat) (subs : List Subroutine) (g : Generator) :
    Leaves Failure.generator g.Emits (subroutines begun subs g) := by
  induction subs generalizing begun g with
  | nil => exact .refl ..
  | cons sub subs ih =>
    have hsub := subroutine_leaves_emits sub g
    rw [subroutines]
    split
    next hg => exact hsub.of_error hg
    next g₁ hg =>
      have hemits := hsub.of_ok hg
      have hrest := ih (begun + 1) g₁
      cases hresult : subroutines (begun + 1) subs g₁ with
      | ok g₂ => exact hemits.trans (hrest.of_ok hresult)
      | error failure => exact hemits.trans (hrest.of_error hresult)

theorem classDecl_leaves_emits (decl : ClassDecl) (g : Generator) :
    Leaves Failure.generator g.Emits (classDecl decl g) := by
  rw [classDecl]
  split
  · exact .refl ..
  next scope hscope => exact subroutines_leaves_emits 0 decl.subroutines { g with scope }

/-! ### Runs of a generator -/

/-- Compiles classes one after the other, for the results and the generator afterwards. -/
def compileAll : List ClassDecl → Generator → List (Except CompileError (List Instr)) × Generator
  | [], g => ([], g)
  | decl :: decls, g =>
    let (result, g₁) := compile decl g
    let (results, g₂) := compileAll decls g₁
    (result :: results, g₂)

/-- The code that is taken out of a generator with a result. -/
def taken : Except CompileError (List Instr) → List Instr
  | .ok code => code
  | .error _ => []

/-- All the code of a run: what was taken out of the generator, and what is left in it. -/
def runCode (decls : List ClassDecl) (g : Generator) : List Instr :=
  (compileAll decls g).1.flatMap taken ++ (compileAll decls g).2.output.code.toList

theorem compile_adds (decl : ClassDecl) (g : Generator) :
    Adds g.output.code.toList g.output.labels
      (taken (compile decl g).1 ++ (compile decl g).2.output.code.toList)
      (compile decl g).2.output.labels := by
  have hclass := classDecl_leaves_emits decl g
  rw [compile]
  split
  next hg => simpa [taken, Emits] using hclass.of_ok hg
  next hg => exact hclass.of_error hg

theorem runCode_adds (decls : List ClassDecl) (g : Generator) :
    Adds g.output.code.toList g.output.labels (runCode decls g)
      (compileAll decls g).2.output.labels := by
  induction decls generalizing g with
  | nil => exact .refl ..
  | cons decl decls ih =>
    have hrest := (ih (compile decl g).2).prepend (taken (compile decl g).1)
    simpa [runCode, compileAll] using (compile_adds decl g).trans hrest

end Generator

/-! ### Compiled functions -/

namespace Generator.Stage

theorem labelsOf_code (stage : Stage) : labelsOf stage.code =
    labelsOf (Code.stmts stage.ctx stage.before.output.labels stage.sub.body.statements) := by
  rw [code, codeOf, labelsOf_append, labelsOf_header, List.nil_append]
  rfl

theorem targetsOf_code (stage : Stage) : targetsOf stage.code =
    targetsOf (Code.stmts stage.ctx stage.before.output.labels stage.sub.body.statements) := by
  have hheader : targetsOf (header stage.sub stage.after.scope) = [] := by
    cases h : stage.sub.kind <;> simp [header, prologue, h]
  rw [code, codeOf, targetsOf_append, hheader, List.nil_append]
  rfl

theorem closed (stage : Stage) : targetsOf stage.code ⊆ labelsOf stage.code := by
  rw [labelsOf_code, targetsOf_code]
  exact Code.stmts_closed _ _

theorem labelsOf_nodup (stage : Stage) : (labelsOf stage.code).Nodup :=
  labelsOf_codeOf_nodup stage.sub stage.before stage.after

theorem emits (stage : Stage) : stage.before.Emits stage.after :=
  (subroutine_leaves_emits stage.sub stage.before).of_ok stage.compiles

end Generator.Stage

theorem Generator.Leads.emits {g g' : Generator} {stages : List Stage} (h : Leads g stages g') :
    g.Emits g' := by
  induction stages generalizing g with
  | nil =>
    obtain rfl : g = g' := h
    exact .refl ..
  | cons stage stages ih =>
    obtain ⟨rfl, hrest⟩ := h
    exact stage.emits.trans (ih hrest)

/-- In the code of a source no label is placed twice, and every jump goes to a label that is placed
once, in the function of the jump. Nor is a label placed twice in what a generator emits while it
compiles any classes one after the other, with or without errors. -/
theorem labels_nodup_and_jumps_closed :
    (∀ {unit source : String} {code : List Instr}, compileSource unit source = .ok code →
      (labelsOf code).Nodup ∧
      ∀ block ∈ functionBlocks code, ∀ l ∈ targetsOf block,
        (labelsOf code).count l = 1 ∧ (labelsOf block).count l = 1) ∧
    ∀ (decls : List ClassDecl) (g : Generator), ∃ emitted,
      Generator.runCode decls g = g.output.code.toList ++ emitted ∧ (labelsOf emitted).Nodup := by
  constructor
  · intro unit source code h
    obtain ⟨decl, scope, stages, g, -, hstages, hcode, hblocks⟩ := exists_stages_of_compileSource h
    obtain ⟨-, emitted, hemitted, hlabels⟩ := hstages.leads.emits
    obtain rfl : code = emitted := by simpa [Output.empty, hcode] using hemitted
    have hnodup : (labelsOf code).Nodup := hlabels.1
    refine ⟨hnodup, fun block hblock l hl => ?_⟩
    rw [hblocks] at hblock
    obtain ⟨stage, hstage, rfl⟩ := List.mem_map.1 hblock
    have hmem := stage.closed hl
    have hsubset : stage.code ⊆ code := by
      rw [hcode, hstages.output_eq]
      exact fun i hi => List.mem_flatten.2 ⟨_, hblock, hi⟩
    exact ⟨List.count_eq_one_of_mem hnodup (List.filterMap_subset _ hsubset hmem),
      List.count_eq_one_of_mem stage.labelsOf_nodup hmem⟩
  · intro decls g
    obtain ⟨-, emitted, hemitted, hlabels⟩ := Generator.runCode_adds decls g
    exact ⟨emitted, hemitted, hlabels.1⟩

/-- The loop of a method. -/
theorem countDown_jumps_closed :
    compileSource "A" countDownSource = .ok countDownCode ∧ (labelsOf countDownCode).Nodup ∧
      targetsOf countDownCode = [⟨.holds, 0⟩, ⟨.loopEnd, 0⟩, ⟨.condition, 0⟩] ∧
      ∀ l ∈ targetsOf countDownCode, (labelsOf countDownCode).count l = 1 := by
  have hblocks : functionBlocks countDownCode = [countDownCode] := by decide
  obtain ⟨hnodup, hclosed⟩ := labels_nodup_and_jumps_closed.1 compileSource_countDown
  refine ⟨compileSource_countDown, hnodup, by decide, fun l hl => ?_⟩
  exact (hclosed countDownCode (by simp [hblocks]) l hl).1

end Jack
