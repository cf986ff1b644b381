import Jack.Proofs.Vm.Blocks

/-!
The slots of variables. What a name means in a subroutine can be read off the declarations: its
place among the local variables, the parameters, the fields or the static variables, in this order.
The scopes in which subroutines are compiled say the same.
-/

namespace Jack

/-! ### Declarations in order -/

/-- The names that are declared together, each with its type. -/
def typed (type : VarType) (names : Separated Ident) : List (String × String) :=
  names.toList.map fun name => (name.name, type.name)

/-- The static variables or the fields of a class. -/
def ClassDecl.variables (decl : ClassDecl) (kind : ClassVarKind) : List (String × String) :=
  (decl.vars.filter (·.kind = kind)).flatMap fun dec => typed dec.type dec.names

namespace Subroutine

def parameters (sub : Subroutine) : List (String × String) :=
  (sub.params.elim [] Separated.toList).map fun p => (p.name.name, p.type.name)

def locals (sub : Subroutine) : List (String × String) :=
  sub.body.vars.flatMap fun dec => typed dec.type dec.names

end Subroutine

/-- The segment and the index of the variable that a name means, and its type. -/
inductive Slot (decl : ClassDecl) (sub : Subroutine) (name type : String) : Segment → Nat → Prop
  | localVar {k : Nat} (h : sub.locals[k]? = some (name, type)) :
      Slot decl sub name type .localVar k
  | parameter {k : Nat} (hlocal : name ∉ sub.locals.map Prod.fst)
      (h : sub.parameters[k]? = some (name, type)) :
      Slot decl sub name type .argument (if sub.kind = .method then k + 1 else k)
  | field {k : Nat} (hlocal : name ∉ sub.locals.map Prod.fst)
      (hparameter : name ∉ sub.parameters.map Prod.fst)
      (h : (decl.variables .field)[k]? = some (name, type)) : Slot decl sub name type .this k
  | static {k : Nat} (hlocal : name ∉ sub.locals.map Prod.fst)
      (hparameter : name ∉ sub.parameters.map Prod.fst)
      (h : (decl.variables .static)[k]? = some (name, type)) : Slot decl sub name type .static k

/-! ### Scopes of subroutines -/

/-- The variables in the scope of a subroutine. A method has its object for its first argument. -/
def declaredIn (decl : ClassDecl) (sub : Subroutine) : Scope.Declared
  | .static => decl.variables .static
  | .field => decl.variables .field
  | .argument =>
    (if sub.kind = .method then [("this", decl.name.name)] else []) ++ sub.parameters
  | .localVar => sub.locals

/-- The context is that of the subroutine. -/
structure Context.For (ctx : Context) (decl : ClassDecl) (sub : Subroutine) : Prop where
  lists : ctx.scope.Lists (declaredIn decl sub)
  kind : ctx.kind = sub.kind
  className : ctx.scope.className = decl.name.name

namespace Generator

variable {scope scope' : Scope} {declared : Scope.Declared}

theorem declare_lists {type : VarType} {kind : VarKind} {names : List Ident}
    (h : declare type.name kind names scope = .ok scope') (hlists : scope.Lists declared) :
    scope'.Lists (declared.add kind (names.map fun name => (name.name, type.name))) := by
  induction names generalizing scope declared with
  | nil =>
    obtain rfl : scope = scope' := Except.ok.inj h
    simpa using hlists
  | cons name names ih =>
    rw [declare] at h
    split at h
    next hdefine => simpa using ih h (hlists.define hdefine)
    · simp at h

theorem declareClassVars_lists {decs : List ClassVarDec}
    (h : declareClassVars decs scope = .ok scope') (hlists : scope.Lists declared) :
    scope'.Lists fun kind => declared kind ++
      (decs.filter (·.kind.varKind = kind)).flatMap fun dec => typed dec.type dec.names := by
  induction decs generalizing scope declared with
  | nil =>
    obtain rfl : scope = scope' := Except.ok.inj h
    simpa using hlists
  | cons dec decs ih =>
    obtain ⟨scope₁, hdec, hdecs⟩ := bind_eq_ok_iff.1 h
    have hrest := ih hdecs (declare_lists hdec hlists)
    convert hrest using 2 with kind
    by_cases hkind : dec.kind.varKind = kind
    · simp [hkind, Scope.Declared.add, typed]
    · simp [hkind, Ne.symm hkind, Scope.Declared.add]

theorem declareParams_lists {params : List Param}
    (h : declareParams params scope = .ok scope') (hlists : scope.Lists declared) :
    scope'.Lists (declared.add .argument (params.map fun p => (p.name.name, p.type.name))) := by
  induction params generalizing scope declared with
  | nil =>
    obtain rfl : scope = scope' := Except.ok.inj h
    simpa using hlists
  | cons p params ih =>
    obtain ⟨scope₁, hp, hparams⟩ := bind_eq_ok_iff.1 h
    simpa using ih hparams (declare_lists hp hlists)

theorem declareVars_lists {decs : List VarDec}
    (h : declareVars decs scope = .ok scope') (hlists : scope.Lists declared) :
    scope'.Lists (declared.add .localVar (decs.flatMap fun dec => typed dec.type dec.names)) := by
  induction decs generalizing scope declared with
  | nil =>
    obtain rfl : scope = scope' := Except.ok.inj h
    simpa using hlists
  | cons dec decs ih =>
    obtain ⟨scope₁, hdec, hdecs⟩ := bind_eq_ok_iff.1 h
    simpa [typed] using ih hdecs (declare_lists hdec hlists)

theorem declareThis_lists {sub : Subroutine}
    (h : declareThis sub scope = .ok scope') (hlists : scope.Lists declared) :
    scope'.Lists (declared.add .argument
      (if sub.kind = .method then [("this", scope.className)] else [])) := by
  rw [declareThis] at h
  split at h
  next hmethod =>
    split at h
    next hdefine =>
      obtain rfl := Except.ok.inj h
      simpa [hmethod] using hlists.define hdefine
    · simp at h
  next hnot =>
    obtain rfl := Except.ok.inj h
    rwa [if_neg, Scope.Declared.add_nil]
    simpa using hnot

theorem openScope_lists {sub : Subroutine} (h : openScope sub scope = .ok scope')
    (hlists : scope.Lists declared) :
    scope'.Lists ((declared.ofClass.add .argument
      ((if sub.kind = .method then [("this", scope.className)] else []) ++ sub.parameters)).add
        .localVar sub.locals) := by
  obtain ⟨scope₁, hthis, hrest⟩ := bind_eq_ok_iff.1 h
  obtain ⟨scope₂, hparams, hvars⟩ := bind_eq_ok_iff.1 hrest
  have hlists₁ := declareThis_lists hthis hlists.startSubroutine
  have hlists₂ := declareParams_lists hparams hlists₁
  rw [Scope.Declared.add_add] at hlists₂
  exact declareVars_lists hvars hlists₂

theorem openScope_className {sub : Subroutine} (h : openScope sub scope = .ok scope') :
    scope'.className = scope.className := by
  have hleaves : Leaves Prod.snd (fun after => after.className = scope.className)
      (openScope sub scope) :=
    openScope_leaves (fun s name type kind hs => (s.className_define name type kind).trans hs)
      sub rfl
  exact hleaves.of_ok h

theorem declareClassVars_className {decs : List ClassVarDec}
    (h : declareClassVars decs scope = .ok scope') : scope'.className = scope.className := by
  have hleaves : Leaves Prod.snd (fun after => after.className = scope.className)
      (declareClassVars decs scope) :=
    declareClassVars_leaves
      (fun s name type kind hs => (s.className_define name type kind).trans hs) decs rfl
  exact hleaves.of_ok h

/-- What the scope of a generator has of a class once its variables are declared. -/
def HasClass (decl : ClassDecl) (g : Generator) : Prop :=
  g.scope.className = decl.name.name ∧ ∃ declared, g.scope.Lists declared ∧
    declared .static = decl.variables .static ∧ declared .field = decl.variables .field

theorem openScope_declaredIn {decl : ClassDecl} {sub : Subroutine} {g : Generator}
    (h : openScope sub g.scope = .ok scope) (hclass : g.HasClass decl) :
    scope.Lists (declaredIn decl sub) := by
  obtain ⟨hname, declared, hlists, hstatic, hfield⟩ := hclass
  have hopen := openScope_lists h hlists
  convert hopen using 1
  funext kind
  cases kind with
  | static => exact hstatic.symm
  | field => exact hfield.symm
  | argument => simp [declaredIn, Scope.Declared.add, Scope.Declared.ofClass, VarKind.level, hname]
  | localVar => simp [declaredIn, Scope.Declared.add, Scope.Declared.ofClass, VarKind.level]

theorem openScope_hasClass {decl : ClassDecl} {sub : Subroutine} {g : Generator}
    (h : openScope sub g.scope = .ok scope) (hclass : g.HasClass decl) (out : Output) :
    HasClass decl ⟨scope, out⟩ :=
  ⟨(openScope_className h).trans hclass.1, _, openScope_declaredIn h hclass, rfl, rfl⟩

theorem Stage.lists {decl : ClassDecl} {stage : Stage} (h : stage.before.HasClass decl) :
    stage.after.scope.Lists (declaredIn decl stage.sub) :=
  openScope_declaredIn (subroutine_eq_ok stage.compiles).1 h

theorem Stage.hasClass {decl : ClassDecl} (stage : Stage) (h : stage.before.HasClass decl) :
    stage.after.HasClass decl :=
  openScope_hasClass (subroutine_eq_ok stage.compiles).1 h _

theorem declareClassVars_hasClass {decl : ClassDecl}
    (h : declareClassVars decl.vars (.empty decl.name.name) = .ok scope) (out : Output) :
    HasClass decl ⟨scope, out⟩ := by
  have hvars := declareClassVars_lists h (Scope.lists_empty decl.name.name)
  have hvariables (kind : ClassVarKind) : (decl.vars.filter (·.kind.varKind = kind.varKind)).flatMap
      (fun dec => typed dec.type dec.names) = decl.variables kind := by
    rw [ClassDecl.variables]
    congr 1
    apply List.filter_congr
    intro dec _
    cases kind <;> cases dec.kind <;> rfl
  exact ⟨declareClassVars_className h, _, hvars, hvariables .static, hvariables .field⟩

theorem CompiledIn.hasClass {decl : ClassDecl} {stages : List Stage} {g : Generator}
    (h : CompiledIn decl scope stages g) {stage : Stage} (hstage : stage ∈ stages) :
    stage.before.HasClass decl :=
  h.leads.keeps (fun stage => stage.hasClass) (declareClassVars_hasClass h.vars _) stage hstage

/-- Each subroutine of a class is compiled in its own context. -/
theorem CompiledIn.ctx_for {decl : ClassDecl} {stages : List Stage} {g : Generator}
    (h : CompiledIn decl scope stages g) {stage : Stage} (hstage : stage ∈ stages) :
    stage.ctx.For decl stage.sub := by
  have hclass := h.hasClass hstage
  exact ⟨Stage.lists hclass, rfl, (stage.hasClass hclass).1⟩

end Generator

/-! ### Names and slots -/

section

variable {decl : ClassDecl} {sub : Subroutine} {scope : Scope} {name type : String}
  {segment : Segment} {k : Nat}

theorem mem_map_fst_iff {names : List (String × String)} :
    name ∈ names.map Prod.fst ↔ ∃ (k : Nat) (type : String), names[k]? = some (name, type) := by
  simp only [List.mem_iff_getElem?, List.getElem?_map, Option.map_eq_some_iff, Prod.exists,
    exists_and_right, exists_eq_right]

theorem declaredIn_has_of_parameter (h : sub.parameters[k]? = some (name, type)) :
    (declaredIn decl sub).Has
      ⟨name, type, .argument, if sub.kind = .method then k + 1 else k⟩ := by
  simp only [Scope.Declared.Has, declaredIn]
  by_cases hmethod : sub.kind = .method <;> simpa [hmethod] using h

theorem parameter_of_declaredIn_has (hname : name ≠ "this") {i : Nat}
    (h : (declaredIn decl sub).Has ⟨name, type, .argument, i⟩) :
    ∃ k, sub.parameters[k]? = some (name, type) ∧ i = if sub.kind = .method then k + 1 else k := by
  simp only [Scope.Declared.Has, declaredIn] at h
  by_cases hmethod : sub.kind = .method
  · cases i with
    | zero => simp [hmethod, Ne.symm hname] at h
    | succ i => exact ⟨i, by simpa [hmethod] using h, by simp [hmethod]⟩
  · exact ⟨i, by simpa [hmethod] using h, by simp [hmethod]⟩

/-- The names that hide a variable of the class. -/
theorem exists_has_iff_mem (hname : name ≠ "this") :
    (∃ v : Variable, v.kind.level = .subroutineLevel ∧ v.name = name ∧
      (declaredIn decl sub).Has v) ↔
    name ∈ sub.locals.map Prod.fst ∨ name ∈ sub.parameters.map Prod.fst := by
  simp only [mem_map_fst_iff]
  constructor
  · rintro ⟨⟨_, type, kind, i⟩, hlevel, rfl, hhas⟩
    cases kind with
    | static | field => simp [VarKind.level] at hlevel
    | localVar => exact .inl ⟨i, type, hhas⟩
    | argument =>
      obtain ⟨k, hk, -⟩ := parameter_of_declaredIn_has hname hhas
      exact .inr ⟨k, type, hk⟩
  · rintro (⟨k, type, hk⟩ | ⟨k, type, hk⟩)
    · exact ⟨⟨name, type, .localVar, k⟩, rfl, rfl, hk⟩
    · exact ⟨⟨name, type, .argument, _⟩, rfl, rfl, declaredIn_has_of_parameter hk⟩

/-- A slot is that of a variable, and it is one of the class when the subroutine has none. -/
theorem Slot.exists_has (h : Slot decl sub name type segment k) :
    ∃ kind, kind.segment = segment ∧ (declaredIn decl sub).Has ⟨name, type, kind, k⟩ ∧
      (kind.level = .classLevel ↔
        name ∉ sub.locals.map Prod.fst ∧ name ∉ sub.parameters.map Prod.fst) := by
  cases h with
  | localVar h =>
    have hmem := mem_map_fst_iff.2 ⟨_, _, h⟩
    exact ⟨.localVar, rfl, h, by simp [VarKind.level], fun hnot => absurd hmem hnot.1⟩
  | parameter _ h =>
    have hmem := mem_map_fst_iff.2 ⟨_, _, h⟩
    exact ⟨.argument, rfl, declaredIn_has_of_parameter h, by simp [VarKind.level],
      fun hnot => absurd hmem hnot.2⟩
  | field hlocal hparameter h => exact ⟨.field, rfl, h, fun _ => ⟨hlocal, hparameter⟩, fun _ => rfl⟩
  | static hlocal hparameter h =>
    exact ⟨.static, rfl, h, fun _ => ⟨hlocal, hparameter⟩, fun _ => rfl⟩

/-- A name is looked up to the variable of its slot. -/
theorem lookup_of_slot (h : scope.Lists (declaredIn decl sub)) (hname : name ≠ "this")
    (hslot : Slot decl sub name type segment k) :
    ∃ kind, kind.segment = segment ∧ scope.lookup name = some ⟨name, type, kind, k⟩ := by
  obtain ⟨kind, hsegment, hhas, hclass⟩ := hslot.exists_has
  refine ⟨kind, hsegment, h.lookup_eq_some_iff.2 ⟨rfl, hhas, ?_⟩⟩
  cases hlevel : kind.level with
  | subroutineLevel => exact .inl rfl
  | classLevel =>
    right
    intro w hw hwname hwhas
    obtain ⟨hlocal, hparameter⟩ := hclass.1 hlevel
    rcases (exists_has_iff_mem hname).1 ⟨w, hw, hwname, hwhas⟩ with hmem | hmem
    · exact hlocal hmem
    · exact hparameter hmem

/-- What a name is looked up to is the variable of its slot. -/
theorem slot_of_lookup (h : scope.Lists (declaredIn decl sub)) (hname : name ≠ "this")
    {v : Variable} (hv : scope.lookup name = some v) :
    Slot decl sub name v.type v.kind.segment v.index := by
  obtain ⟨rfl, hhas, hlevel⟩ := h.lookup_eq_some_iff.1 hv
  have hhidden (hclass : v.kind.level = .classLevel) : v.name ∉ sub.locals.map Prod.fst ∧
      v.name ∉ sub.parameters.map Prod.fst := by
    rcases hlevel with hsub | hfree
    · simp [hclass] at hsub
    · constructor
      · intro hmem
        obtain ⟨w, hw, hwname, hwhas⟩ := (exists_has_iff_mem hname).2 (.inl hmem)
        exact hfree w hw hwname hwhas
      · intro hmem
        obtain ⟨w, hw, hwname, hwhas⟩ := (exists_has_iff_mem hname).2 (.inr hmem)
        exact hfree w hw hwname hwhas
  obtain ⟨name, type, kind, i⟩ := v
  cases kind with
  | static => exact .static (hhidden rfl).1 (hhidden rfl).2 hhas
  | field => exact .field (hhidden rfl).1 (hhidden rfl).2 hhas
  | localVar => exact .localVar hhas
  | argument =>
    obtain ⟨k, hk, rfl⟩ := parameter_of_declaredIn_has hname hhas
    refine .parameter (fun hmem => ?_) hk
    obtain ⟨i, type', hi⟩ := mem_map_fst_iff.1 hmem
    -- a local variable of this name would be the parameter
    have heq := h.eq_of_has (v := ⟨name, type', .localVar, i⟩) hi hhas rfl rfl
    simp at heq

end

end Jack
