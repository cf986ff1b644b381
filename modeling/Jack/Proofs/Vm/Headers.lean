import Jack.Proofs.Scope.Density
import Jack.Proofs.Vm.Independence
import Jack.Proofs.Vm.Validity

/-!
The blocks of a class, one for each subroutine. What stands in front of the statements of a
subroutine can be read off the declarations: its name, the number of its local variables and, if it
is a constructor, the number of fields of the class.
-/

namespace Jack

/-- The number of names that the field declarations declare. -/
def ClassDecl.fieldCount (decl : ClassDecl) : Nat :=
  ((decl.vars.filter (·.kind = .field)).flatMap fun dec => dec.names.toList).length

/-- The `function` of a subroutine. -/
def Subroutine.function (decl : ClassDecl) (sub : Subroutine) : Instr :=
  .function (decl.name.name ++ "." ++ sub.name.name) sub.body.localCount

/-- What a subroutine of the class does before its statements: a constructor makes an object with
room for the fields, a method takes the object that it is called on. -/
def ClassDecl.opening (decl : ClassDecl) : SubroutineKind → List Instr
  | .constructor => [.push .constant decl.fieldCount, .call "Memory.alloc" 1, .pop .pointer 0]
  | .method => [.push .argument 0, .pop .pointer 0]
  | .function => []

namespace Generator

/-- Subroutines of a class have the blocks, when the variables of the class are those of the scope
and `n` is the number of the next label. Behind the `function` and the opening of a subroutine there
is the code that its statements have in its own scope. -/
inductive Assembles (decl : ClassDecl) (scope : Scope) :
    Nat → List Subroutine → List (List Instr) → Prop
  | nil {n : Nat} : Assembles decl scope n [] []
  | cons {n n' : Nat} {sub : Subroutine} {subs : List Subroutine} {inner : Scope}
      {body : List Instr} {blocks : List (List Instr)}
      (hscope : openScope sub scope = .ok inner)
      (hbody : Context.stmts ⟨inner, sub.kind⟩ sub.body.statements ⟨#[], n⟩ =
        .ok ⟨body.toArray, n'⟩)
      (rest : Assembles decl scope n' subs blocks) :
      Assembles decl scope n (sub :: subs)
        ((sub.function decl :: (decl.opening sub.kind ++ body)) :: blocks)

end Generator

/-! ### Counts of declared names -/

theorem Subroutine.length_locals (sub : Subroutine) : sub.locals.length = sub.body.localCount := by
  simp [Subroutine.locals, typed, Body.localCount, List.length_flatMap]

theorem ClassDecl.length_fields (decl : ClassDecl) :
    (decl.variables .field).length = decl.fieldCount := by
  simp [ClassDecl.variables, typed, ClassDecl.fieldCount, List.length_flatMap]

namespace Generator

variable {decl : ClassDecl} {scope : Scope} {sub : Subroutine} {g g' : Generator}
  {stages : List Stage}

theorem header_eq {ctx : Context} (h : ctx.For decl sub) :
    header sub ctx.scope = sub.function decl :: decl.opening sub.kind := by
  have hlocals : ctx.scope.countOf .localVar = sub.body.localCount :=
    (h.lists.countOf .localVar).trans sub.length_locals
  have hfields : ctx.scope.countOf .field = decl.fieldCount :=
    (h.lists.countOf .field).trans decl.length_fields
  rw [header, hlocals, h.className]
  cases hkind : sub.kind with
  | constructor => simp only [prologue, hfields]; rfl
  | method => rfl
  | function => rfl

/-! ### Blocks -/

/-- The code of the statements alone is what they add to any output. -/
theorem Stage.stmts_alone (stage : Stage) :
    Context.stmts stage.ctx stage.sub.body.statements ⟨#[], stage.before.output.labels⟩ =
      .ok ⟨(Code.stmts stage.ctx stage.before.output.labels stage.sub.body.statements).toArray,
        stage.after.output.labels⟩ := by
  have hstmts : stage.ctx.stmts stage.sub.body.statements
      (stage.before.output.append (header stage.sub stage.after.scope)) = .ok stage.after.output :=
    (subroutine_eq_ok stage.compiles).2
  have hlabels := congrArg Output.labels (Context.stmts_eq _ hstmts)
  have halone := stmts_of_other_output hstmts ⟨#[], stage.before.output.labels⟩
  rw [hlabels]
  simpa [Output.append, Output.number] using halone

theorem Leads.assembles (h : Leads g stages g') (hclass : g.HasClass decl)
    (hscope : g.scope.startSubroutine = scope.startSubroutine) :
    Assembles decl scope g.output.labels (stages.map Stage.sub) (stages.map Stage.code) := by
  -- A subroutine before this one has left the variables of the class as they were, so the scope
  -- that this one opens is the same as if it were the first.
  induction stages generalizing g with
  | nil => exact .nil
  | cons stage stages ih =>
    obtain ⟨rfl, hrest⟩ := h
    have hnext := stage.hasClass hclass
    have hfor : stage.ctx.For decl stage.sub := ⟨Stage.lists hclass, rfl, hnext.1⟩
    have hopen := (subroutine_eq_ok stage.compiles).1
    rw [openScope_congr hscope] at hopen
    have hcode : stage.code = stage.sub.function decl :: (decl.opening stage.sub.kind ++
        Code.stmts stage.ctx stage.before.output.labels stage.sub.body.statements) := by
      have hheader := header_eq hfor
      rw [Stage.code, codeOf]
      exact congrArg (· ++ _) hheader
    have hblocks := ih hrest hnext ((subroutine_startSubroutine stage.compiles).trans hscope)
    rw [List.map_cons, List.map_cons, hcode]
    exact .cons hopen stage.stmts_alone hblocks

/-- No block has another `function` than the first of its instructions. -/
theorem Assembles.filter_flatten {n : Nat} {subs : List Subroutine} {blocks : List (List Instr)}
    (h : Assembles decl scope n subs blocks) (hblocks : ∀ block ∈ blocks, IsFunctionBlock block) :
    blocks.flatten.filter Instr.isFunction = subs.map (Subroutine.function decl) := by
  induction h with
  | nil => rfl
  | @cons _ _ sub _ _ stmts _ _ _ _ ih =>
    -- That statements have no `function` in their code is known of the block as a whole.
    obtain ⟨⟨name, locals, body, hblock, hbody⟩, hrest⟩ := List.forall_mem_cons.1 hblocks
    obtain ⟨hfirst, rfl⟩ := List.cons.inj hblock
    have hnone : (decl.opening sub.kind ++ stmts).filter Instr.isFunction = [] := by
      rw [List.filter_eq_nil_iff]
      intro i hi
      simp [hbody i hi]
    rw [List.flatten_cons, List.filter_append, List.filter_cons_of_pos (by rw [hfirst]; rfl), hnone,
      ih hrest]
    rfl

/-! ### Bounds -/

theorem Stage.bounded (stage : Stage) (h : stage.before.scope.Bounded) :
    stage.after.scope.Bounded := by
  have hopen : Leaves Prod.snd Scope.Bounded (openScope stage.sub stage.before.scope) :=
    openScope_leaves (fun _ name type kind hs => hs.define name type kind) stage.sub
      (h.change .startSubroutine)
  exact hopen.of_ok (subroutine_eq_ok stage.compiles).1

theorem declareClassVars_bounded
    (h : declareClassVars decl.vars (.empty decl.name.name) = .ok scope) : scope.Bounded := by
  have hvars : Leaves Prod.snd Scope.Bounded
      (declareClassVars decl.vars (.empty decl.name.name)) :=
    declareClassVars_leaves (fun _ name type kind hs => hs.define name type kind) decl.vars
      (Scope.bounded_empty _)
  exact hvars.of_ok h

theorem fieldCount_le (h : declareClassVars decl.vars (.empty decl.name.name) = .ok scope) :
    decl.fieldCount ≤ 65535 := by
  obtain ⟨-, declared, hlists, -, hfields⟩ := declareClassVars_hasClass h .empty
  obtain ⟨-, -, hcounts⟩ := declareClassVars_bounded h
  have hcount := hcounts .field
  have hfield : scope.countOf .field = (declared .field).length := hlists.countOf .field
  rwa [hfield, hfields, decl.length_fields] at hcount

theorem CompiledIn.localCount_le (h : CompiledIn decl scope stages g) {stage : Stage}
    (hstage : stage ∈ stages) : stage.sub.body.localCount ≤ 65535 := by
  have hbefore : stage.before.scope.Bounded :=
    h.leads.keeps (P := fun g => g.scope.Bounded) Stage.bounded (declareClassVars_bounded h.vars)
      stage hstage
  obtain ⟨-, -, hcounts⟩ := stage.bounded hbefore
  have hlocals := (h.ctx_for hstage).lists.countOf .localVar
  rw [← stage.sub.length_locals]
  exact hlocals.symm.trans_le (hcounts .localVar)

end Generator

open Generator in
/-- The code of a source has a block for each subroutine of its class, in order. The block starts
with `function`, the name of the subroutine behind that of the class and the number of its local
variables; there follow its opening and the code of its statements, and nothing else. -/
theorem compileSource_assembles {unit source : String} {code : List Instr}
    (h : compileSource unit source = .ok code) :
    ∃ decl scope, parseSource unit source = .ok decl ∧
      declareClassVars decl.vars (.empty decl.name.name) = .ok scope ∧
      Assembles decl scope 0 decl.subroutines (functionBlocks code) ∧
      code.filter Instr.isFunction = decl.subroutines.map (Subroutine.function decl) ∧
      decl.fieldCount ≤ 65535 ∧ ∀ sub ∈ decl.subroutines, sub.body.localCount ≤ 65535 := by
  obtain ⟨decl, scope, stages, g, hparse, hcompiled, rfl, hblocks⟩ :=
    exists_stages_of_compileSource h
  have hassembles : Assembles decl scope 0 (stages.map Stage.sub) (stages.map Stage.code) :=
    hcompiled.leads.assembles (declareClassVars_hasClass hcompiled.vars _) rfl
  rw [hcompiled.subs, ← hblocks] at hassembles
  have hfilter := hassembles.filter_flatten fun block hblock => by
    rw [hblocks] at hblock
    obtain ⟨stage, -, rfl⟩ := List.mem_map.1 hblock
    exact stage.isFunctionBlock
  rw [functionBlocks, List.flatten_splitBy] at hfilter
  refine ⟨decl, scope, hparse, hcompiled.vars, hassembles, hfilter, fieldCount_le hcompiled.vars,
    fun sub hsub => ?_⟩
  rw [← hcompiled.subs] at hsub
  obtain ⟨stage, hstage, rfl⟩ := List.mem_map.1 hsub
  exact hcompiled.localCount_le hstage

/-- A constructor of a class with two field declarations, then a method and a function. -/
theorem compileSource_assembles_three :
    let source := "class P \x7b field int x; field int y, z; " ++
      "constructor P new() \x7b var int i, j; return this; \x7d " ++
      "method int x() \x7b var int k; return x; \x7d function void f() \x7b return; \x7d \x7d"
    ∃ code body₁ body₂ body₃, compileSource "P" source = .ok code ∧
      functionBlocks code =
        [.function "P.new" 2 ::
            ([.push .constant 3, .call "Memory.alloc" 1, .pop .pointer 0] ++ body₁),
          .function "P.x" 1 :: ([.push .argument 0, .pop .pointer 0] ++ body₂),
          .function "P.f" 0 :: ([] ++ body₃)] ∧
      code.filter Instr.isFunction =
        [.function "P.new" 2, .function "P.x" 1, .function "P.f" 0] := by
  intro source
  have hvalues : (parseSource "P" source).toOption.map (fun decl => (decl.violations,
      decl.subroutines.map fun sub => (sub.function decl, decl.opening sub.kind))) =
        some ([], [(.function "P.new" 2,
            [.push .constant 3, .call "Memory.alloc" 1, .pop .pointer 0]),
          (.function "P.x" 1, [.push .argument 0, .pop .pointer 0]), (.function "P.f" 0, [])]) := by
    decide +kernel
  obtain ⟨decl, hparse, hvalues⟩ := exists_ok_of_toOption_map hvalues
  simp only [Prod.mk.injEq, List.map_eq_cons_iff, List.map_eq_nil_iff] at hvalues
  obtain ⟨hnone, new, _, hsubs, ⟨hnew, hnew'⟩, x, _, rfl, ⟨hx, hx'⟩, f, _, rfl, ⟨hf, hf'⟩, rfl⟩ :=
    hvalues
  obtain ⟨code, hcode⟩ := exists_compileSource hparse hnone
  obtain ⟨_, scope, hdecl, -, hassembles, hfilter, -⟩ := compileSource_assembles hcode
  cases hparse.symm.trans hdecl
  rw [hsubs] at hassembles hfilter
  generalize hblocks : functionBlocks code = blocks at hassembles
  cases hassembles with
  | cons _ hbody₁ hrest =>
    cases hrest with
    | cons _ hbody₂ hrest =>
      cases hrest with
      | cons _ hbody₃ hrest =>
        cases hrest
        rw [hnew, hnew', hx, hx', hf, hf'] at hblocks
        exact ⟨code, _, _, _, hcode, hblocks, by simpa [hnew, hx, hf] using hfilter⟩

end Jack
