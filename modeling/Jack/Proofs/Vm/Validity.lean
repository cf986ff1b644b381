import Jack.Proofs.Vm.Violations

/-!
Classes that have code. A class is valid if its names are distinct, no kind of variable is too
numerous, and the bodies of its subroutines use their variables, strings and calls within bounds. It
has code exactly when it is valid, and otherwise the error is its first violation.
-/

namespace Jack

/-! ### Validity -/

/-- A subroutine of the class is without violations. -/
structure Subroutine.ValidIn (decl : ClassDecl) (sub : Subroutine) : Prop where
  distinct : ((sub.parameters ++ sub.locals).map Prod.fst).Nodup
  /-- The object of a method counts. -/
  parameters_le : sub.parameters.length + sub.hidden.length ≤ maxVariables
  locals_le : sub.locals.length ≤ maxVariables
  uses : ∀ name, .use name ∈ sub.body.statements.sites → name.name ∈ decl.namesIn sub
  strings : ∀ value span, .string value span ∈ sub.body.statements.sites →
    value.length ≤ maxOperand ∧ ∀ c ∈ value.toList, c.toNat ≤ maxOperand
  /-- The current object and that of a variable count. -/
  calls : ∀ receiver name args, .call receiver name args ∈ sub.body.statements.sites →
    args + hiddenArgs (fun name => name ∈ decl.namesIn sub) receiver ≤ maxOperand

structure ClassDecl.Valid (decl : ClassDecl) : Prop where
  distinct : ((decl.variables .static ++ decl.variables .field).map Prod.fst).Nodup
  variables_le : ∀ kind, (decl.variables kind).length ≤ maxVariables
  subroutines : ∀ sub ∈ decl.subroutines, sub.ValidIn decl

section

variable (decl : ClassDecl) (sub : Subroutine)

theorem countP_kind (names : List Ident) (kind kind' : VarKind) :
    (names.map (Declaration.mk · kind)).countP (·.kind = kind') =
      if kind = kind' then names.length else 0 := by
  by_cases hkind : kind = kind' <;> simp [List.countP_map, Function.comp_def, hkind]

theorem ClassDecl.names_declarations_perm :
    (decl.declarations.map (·.name.name)).Perm
      ((decl.variables .static ++ decl.variables .field).map Prod.fst) := by
  have hnot : (fun dec : ClassVarDec => !decide (dec.kind = .static)) =
      fun dec => decide (dec.kind = .field) := by
    funext dec
    cases dec.kind <;> rfl
  -- The names are declared in one order and listed in another, first those that are static.
  have hperm := List.filter_append_perm (fun dec : ClassVarDec => decide (dec.kind = .static))
    decl.vars
  rw [hnot] at hperm
  have hnames : decl.declarations.map (·.name.name) =
      decl.vars.flatMap fun dec => (typed dec.type dec.names).map Prod.fst := by
    simp [declarations, typed, List.map_flatMap, Function.comp_def]
  rw [hnames, ClassDecl.variables, ClassDecl.variables, ← List.flatMap_append, List.map_flatMap]
  exact (hperm.flatMap_right _).symm

theorem ClassDecl.countP_declarations (kind : ClassVarKind) :
    decl.declarations.countP (·.kind = kind.varKind) = (decl.variables kind).length := by
  rw [declarations, ClassDecl.variables]
  induction decl.vars with
  | nil => rfl
  | cons dec decs ih =>
    rw [List.flatMap_cons, List.countP_append, ih, countP_kind]
    by_cases hkind : dec.kind = kind
    · simp [hkind, typed]
    · have hne : dec.kind.varKind ≠ kind.varKind := by
        cases hdec : dec.kind <;> cases kind <;> simp_all [ClassVarKind.varKind]
      simp [hkind, hne]

theorem ClassDecl.level_of_mem_declarations {d : Declaration} (h : d ∈ decl.declarations) :
    d.kind.level = .classLevel := by
  obtain ⟨dec, -, hd⟩ := List.mem_flatMap.1 h
  obtain ⟨name, -, rfl⟩ := List.mem_map.1 hd
  cases dec.kind <;> rfl

theorem ClassDecl.errors_declarations_eq_nil_iff : Declaration.errors [] decl.declarations = [] ↔
    ((decl.variables .static ++ decl.variables .field).map Prod.fst).Nodup ∧
      ∀ kind, (decl.variables kind).length ≤ maxVariables := by
  rw [Declaration.errors_eq_nil_iff (by simp) (by simp), List.map_nil, List.append_nil,
    decl.names_declarations_perm.nodup_iff]
  simp only [List.countP_nil, Nat.add_zero, and_congr_right_iff]
  intro _
  constructor
  · intro h kind
    rw [← decl.countP_declarations]
    exact h kind.varKind
  · intro h kind
    cases kind with
    | static => exact decl.countP_declarations .static ▸ h .static
    | field => exact decl.countP_declarations .field ▸ h .field
    | argument | localVar =>
      rw [List.countP_eq_zero.2]
      · exact Nat.zero_le _
      · intro d hd hkind
        have hlevel := decl.level_of_mem_declarations hd
        simp_all [VarKind.level]

theorem Subroutine.names_declarations : sub.declarations.map (·.name.name) =
    (sub.parameters ++ sub.locals).map Prod.fst := by
  simp [declarations, parameters, locals, typed, List.map_flatMap, Function.comp_def]

theorem Subroutine.countP_declarations (kind : VarKind) :
    sub.declarations.countP (·.kind = kind) =
      (if .argument = kind then sub.parameters.length else 0) +
        if .localVar = kind then sub.locals.length else 0 := by
  have hlocals : (sub.body.vars.flatMap fun dec =>
      dec.names.toList.map (Declaration.mk · .localVar)).countP (·.kind = kind) =
        if .localVar = kind then sub.locals.length else 0 := by
    rw [locals]
    induction sub.body.vars with
    | nil => simp
    | cons dec decs ih =>
      rw [List.flatMap_cons, List.countP_append, ih, countP_kind]
      by_cases hkind : .localVar = kind <;> simp [hkind, typed]
  rw [declarations, List.countP_append, hlocals, parameters]
  by_cases hkind : .argument = kind <;> simp [List.countP_map, Function.comp_def, hkind]

theorem Subroutine.errors_declarations_eq_nil_iff (hthis : NoThis sub.terminals) :
    Declaration.errors sub.hidden sub.declarations = [] ↔
      ((sub.parameters ++ sub.locals).map Prod.fst).Nodup ∧
        sub.parameters.length + sub.hidden.length ≤ maxVariables ∧
          sub.locals.length ≤ maxVariables := by
  have hhidden (kind : VarKind) : sub.hidden.countP (·.2 = kind) =
      if .argument = kind then sub.hidden.length else 0 := by
    rw [hidden]
    by_cases hmethod : sub.kind = .method
    · by_cases hkind : .argument = kind <;> simp [hmethod, hkind]
    · simp [hmethod]
  have hlength : sub.hidden.length ≤ maxVariables := by
    rw [hidden]
    split <;> simp [maxVariables]
  have hnodup : (sub.hidden.map Prod.fst).Nodup := by
    rw [hidden]
    split <;> simp
  have hnew (name : String) (hname : name ∈ sub.declarations.map (·.name.name)) (name' : String)
      (hname' : name' ∈ sub.hidden.map Prod.fst) : name ≠ name' := by
    obtain ⟨d, hd, rfl⟩ := List.mem_map.1 hname
    have hthis' : name' = "this" := by
      rw [hidden] at hname'
      split at hname' <;> simp_all
    rintro rfl
    exact hthis d.name.span (hthis' ▸ Subroutine.mem_terminals_of_declaration hd)
  have hroom (kind : VarKind) : sub.hidden.countP (·.2 = kind) ≤ maxVariables :=
    Nat.le_trans List.countP_le_length hlength
  have hnames : (sub.declarations.map (·.name.name) ++ sub.hidden.map Prod.fst).Nodup ↔
      ((sub.parameters ++ sub.locals).map Prod.fst).Nodup := by
    rw [List.nodup_append, and_iff_left ⟨hnodup, hnew⟩, sub.names_declarations]
  rw [Declaration.errors_eq_nil_iff hnodup hroom, hnames, and_congr_right_iff]
  intro _
  simp only [sub.countP_declarations, hhidden]
  constructor
  · intro h
    exact ⟨by simpa using h .argument, by simpa using h .localVar⟩
  · rintro ⟨hparameters, hlocals⟩ kind
    cases kind with
    | static | field => simp
    | argument => simpa using hparameters
    | localVar => simpa using hlocals

end

theorem Site.errors_eq_nil_iff {isVariable : String → Bool} {sites : List Site} :
    sites.filterMap (Site.error? isVariable) = [] ↔
      (∀ name, .use name ∈ sites → isVariable name.name) ∧
      (∀ value span, .string value span ∈ sites →
        value.length ≤ maxOperand ∧ ∀ c ∈ value.toList, c.toNat ≤ maxOperand) ∧
      ∀ receiver name args, .call receiver name args ∈ sites →
        args + hiddenArgs isVariable receiver ≤ maxOperand := by
  have hstring (value : String) (span : Span) :
      (Site.string value span).error? isVariable = none ↔
        value.length ≤ maxOperand ∧ ∀ c ∈ value.toList, c.toNat ≤ maxOperand := by
    rw [error?]
    split
    next hlong => simpa using fun h => absurd h (Nat.not_le.2 hlong)
    next hshort =>
      rw [and_iff_right (Nat.not_lt.1 hshort)]
      split
      next hwide => simpa using hwide
      next hwide => simpa using hwide
  rw [List.filterMap_eq_nil_iff]
  constructor
  · intro h
    refine ⟨fun name hmem => ?_, fun value span hmem => ?_, fun receiver name args hmem => ?_⟩
    · simpa [error?] using h _ hmem
    · exact (hstring value span).1 (h _ hmem)
    · simpa [error?] using h _ hmem
  · rintro ⟨huses, hstrings, hcalls⟩ site hsite
    cases site with
    | use name => simp [error?, huses name hsite]
    | string value span => exact (hstring value span).2 (hstrings value span hsite)
    | call receiver name args => simp [error?, hcalls receiver name args hsite]

theorem Subroutine.violations_eq_nil_iff {decl : ClassDecl} {sub : Subroutine}
    (hthis : NoThis sub.terminals) : sub.violations decl = [] ↔ sub.ValidIn decl := by
  rw [violations, List.append_eq_nil_iff, sub.errors_declarations_eq_nil_iff hthis,
    Site.errors_eq_nil_iff]
  simp only [decide_eq_true_iff]
  constructor
  · rintro ⟨⟨hdistinct, hparameters, hlocals⟩, huses, hstrings, hcalls⟩
    exact ⟨hdistinct, hparameters, hlocals, huses, hstrings, hcalls⟩
  · intro h
    exact ⟨⟨h.distinct, h.parameters_le, h.locals_le⟩, h.uses, h.strings, h.calls⟩

theorem ClassDecl.violations_eq_nil_iff {decl : ClassDecl} (hthis : NoThis decl.terminals) :
    decl.violations = [] ↔ decl.Valid := by
  have hsubs : decl.subroutines.flatMap (Subroutine.violations decl) = [] ↔
      ∀ sub ∈ decl.subroutines, sub.ValidIn decl := by
    rw [List.flatMap_eq_nil_iff]
    exact forall₂_congr fun sub hsub => Subroutine.violations_eq_nil_iff
      (hthis.mono (ClassDecl.terminals_subroutine_subset hsub))
  rw [violations, List.append_eq_nil_iff, decl.errors_declarations_eq_nil_iff, hsubs]
  constructor
  · rintro ⟨⟨hdistinct, hle⟩, hsubs⟩
    exact ⟨hdistinct, hle, hsubs⟩
  · intro h
    exact ⟨⟨h.distinct, h.variables_le⟩, h.subroutines⟩

theorem Generator.compile_eq_error_iff {decl : ClassDecl} {e : CompileError}
    (hthis : NoThis decl.terminals) :
    (compile decl .empty).1 = .error e ↔ decl.violations.head? = some e := by
  rw [← classDecl_errorOf hthis, compile]
  cases classDecl decl .empty <;> simp [errorOf]

theorem compileSource_of_compile {unit source : String} {decl : ClassDecl} {code : List Instr}
    (hdecl : parseSource unit source = .ok decl)
    (hcode : (Generator.compile decl .empty).1 = .ok code) :
    compileSource unit source = .ok code := by
  rw [compileSource, hdecl]
  simp only [bind, Except.bind]
  split
  next heq => simpa [heq] using hcode
  next heq => simp [heq] at hcode

/-- A source has code if its class has no violations. -/
theorem exists_compileSource {unit source : String} {decl : ClassDecl}
    (hdecl : parseSource unit source = .ok decl) (hnone : decl.violations = []) :
    ∃ code, compileSource unit source = .ok code := by
  cases hcompile : (Generator.compile decl .empty).1 with
  | ok code => exact ⟨code, compileSource_of_compile hdecl hcompile⟩
  | error e =>
    have hhead := (Generator.compile_eq_error_iff (noThis_of_parseSource hdecl)).1 hcompile
    simp [hnone] at hhead

/-- A class of a source has code exactly when it is valid, and otherwise the error is that of its
first violation. -/
theorem Generator.compile_reports_first_violation {unit source : String} {decl : ClassDecl}
    (h : parseSource unit source = .ok decl) :
    ((∃ code, (compile decl .empty).1 = .ok code) ↔ decl.Valid) ∧
      ∀ e, (compile decl .empty).1 = .error e ↔ decl.violations.head? = some e := by
  have hthis := noThis_of_parseSource h
  have herror (e : CompileError) := compile_eq_error_iff (e := e) hthis
  refine ⟨?_, herror⟩
  rw [← ClassDecl.violations_eq_nil_iff hthis, ← List.head?_eq_none_iff]
  cases hcompile : (compile decl .empty).1 with
  | ok code =>
    simp only [Except.ok.injEq, exists_eq', true_iff]
    cases hhead : decl.violations.head? with
    | none => rfl
    | some e => simp [(herror e).2 hhead] at hcompile
  | error e => simp [(herror e).1 hcompile]

/-- Of two variables that are not declared, the one in what is done otherwise is reported. -/
theorem Generator.compile_undefined_otherwise :
    let source :=
      "class A \x7b function int f() \x7b if (0) \x7b let x=1; \x7d else \x7b let y=2; \x7d\x7d\x7d"
    let e : CompileError := ⟨.undefined "y", ⟨60, 1⟩⟩
    ∃ decl, parseSource "A" source = .ok decl ∧ decl.violations.length = 2 ∧
      decl.violations.head? = some e ∧ (compile decl .empty).1 = .error e ∧ ¬ decl.Valid := by
  intro source e
  have hviolations : (parseSource "A" source).toOption.map
      (fun decl => (decl.violations.length, decl.violations.head?)) = some (2, some e) := by
    decide +kernel
  cases h : parseSource "A" source with
  | error d => simp [h, Except.toOption] at hviolations
  | ok decl =>
    simp only [h, Except.toOption, Option.map_some, Option.some.injEq, Prod.mk.injEq] at hviolations
    obtain ⟨hlength, hhead⟩ := hviolations
    obtain ⟨hvalid, herror⟩ := compile_reports_first_violation h
    have hcompile := (herror e).2 hhead
    refine ⟨decl, rfl, hlength, hhead, hcompile, fun hdecl => ?_⟩
    obtain ⟨code, hcode⟩ := hvalid.2 hdecl
    simp [hcompile] at hcode

end Jack
