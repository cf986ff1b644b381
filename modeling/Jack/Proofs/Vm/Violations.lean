import Jack.Proofs.Vm.Occurrences
import Jack.Proofs.Vm.Sites

/-!
The violations of a class: names that are taken, kinds that are full, and the faults in the bodies
of its subroutines, in the order in which the generator comes to them. It stops at the first one.
-/

namespace Jack

/-! ### Declarations -/

/-- A name that is declared as a variable of a kind. -/
structure Declaration where
  name : Ident
  kind : VarKind

/-- The names declared at a level, with their kinds. -/
abbrev Earlier : Type := List (String × VarKind)

namespace Declaration

/-- What is wrong with a declaration behind others. -/
def error? (earlier : Earlier) (d : Declaration) : Option CompileError :=
  match earlier.lookup d.name.name with
  | some existing => some ⟨.duplicate d.name.name existing, d.name.span⟩
  | none =>
    if earlier.countP (·.2 = d.kind) < maxVariables then none
    else some ⟨.unsupported (ScopeError.overflow d.kind).message, d.name.span⟩

def entry (d : Declaration) : String × VarKind := (d.name.name, d.kind)

/-- The errors of declarations, each of them behind those before it. -/
def errors (earlier : Earlier) : List Declaration → List CompileError
  | [] => []
  | d :: ds => (d.error? earlier).toList ++ errors (d.entry :: earlier) ds

theorem errors_append (earlier : Earlier) (ds ds' : List Declaration) :
    errors earlier (ds ++ ds') =
      errors earlier ds ++ errors ((ds.map entry).reverse ++ earlier) ds' := by
  induction ds generalizing earlier with
  | nil => rfl
  | cons d ds ih => simp [errors, ih]

/-- An error is at the name of a declaration. -/
theorem exists_of_mem_errors {earlier : Earlier} {ds : List Declaration} {e : CompileError}
    (h : e ∈ errors earlier ds) : ∃ d ∈ ds, d.name.span = e.span := by
  induction ds generalizing earlier with
  | nil => simp [errors] at h
  | cons d ds ih =>
    rcases List.mem_append.1 h with h | h
    · have hspan : d.name.span = e.span := by
        rw [Option.mem_toList, error?] at h
        split at h
        · obtain rfl := Option.some.inj h
          rfl
        · split at h
          · simp at h
          · obtain rfl := Option.some.inj h
            rfl
      exact ⟨d, List.mem_cons_self, hspan⟩
    · obtain ⟨d', hd', hspan⟩ := ih h
      exact ⟨d', List.mem_cons_of_mem _ hd', hspan⟩

theorem error?_eq_none_iff {earlier : Earlier} {d : Declaration} :
    d.error? earlier = none ↔
      d.name.name ∉ earlier.map Prod.fst ∧ earlier.countP (·.2 = d.kind) < maxVariables := by
  have hlookup : earlier.lookup d.name.name = none ↔ d.name.name ∉ earlier.map Prod.fst := by
    rw [List.lookup_eq_none_iff]
    simp only [List.mem_map, not_exists, not_and, bne_iff_ne]
    constructor
    · intro h p hp heq
      exact h p hp heq.symm
    · intro h p hp heq
      exact h p hp heq.symm
  rw [← hlookup, error?]
  split
  next h => simp [h]
  next h =>
    split
    next hlt => simp [h, hlt]
    next hlt => simp [hlt]

/-- Declarations are without errors if their names are new, and there is room for them. -/
theorem errors_eq_nil_iff {earlier : Earlier} {ds : List Declaration}
    (hnodup : (earlier.map Prod.fst).Nodup)
    (hroom : ∀ kind, earlier.countP (·.2 = kind) ≤ maxVariables) :
    errors earlier ds = [] ↔ (ds.map (·.name.name) ++ earlier.map Prod.fst).Nodup ∧
      ∀ kind, ds.countP (·.kind = kind) + earlier.countP (·.2 = kind) ≤ maxVariables := by
  induction ds generalizing earlier with
  | nil => simp [errors, hnodup, hroom]
  | cons d ds ih =>
    have hcount (kind : VarKind) :
        (d :: ds).countP (·.kind = kind) + earlier.countP (·.2 = kind) =
          ds.countP (·.kind = kind) + (d.entry :: earlier).countP (·.2 = kind) := by
      simp only [List.countP_cons, entry]
      omega
    -- A declaration that can be made leaves the names distinct and no kind too full, so that the
    -- hypothesis applies to the others behind it.
    have hnext (h : d.error? earlier = none) : errors (d.entry :: earlier) ds = [] ↔
        ((d :: ds).map (·.name.name) ++ earlier.map Prod.fst).Nodup ∧
          ∀ kind, (d :: ds).countP (·.kind = kind) + earlier.countP (·.2 = kind) ≤
            maxVariables := by
      obtain ⟨hnew, hlt⟩ := error?_eq_none_iff.1 h
      have hnodup' : ((d.entry :: earlier).map Prod.fst).Nodup := List.nodup_cons.2 ⟨hnew, hnodup⟩
      have hroom' (kind : VarKind) : (d.entry :: earlier).countP (·.2 = kind) ≤ maxVariables := by
        have hle := hroom kind
        by_cases hkind : d.kind = kind
        · subst hkind
          simp only [List.countP_cons, entry, decide_true, if_true]
          omega
        · simpa [List.countP_cons, entry, hkind] using hle
      simp only [hcount]
      rw [ih hnodup' hroom', List.map_cons, List.map_cons, List.perm_middle.nodup_iff]
      rfl
    constructor
    · intro h
      obtain ⟨hd, hds⟩ := List.append_eq_nil_iff.1 h
      exact (hnext (Option.toList_eq_nil_iff.1 hd)).1 hds
    · rintro ⟨hnames, hcounts⟩
      have hd : d.error? earlier = none := by
        rw [error?_eq_none_iff]
        constructor
        · intro hmem
          exact (List.nodup_cons.1 hnames).1 (List.mem_append_right _ hmem)
        · have hle := hcounts d.kind
          simp only [List.countP_cons, decide_true, if_true] at hle
          omega
      rw [errors, hd]
      exact (hnext hd).2 ⟨hnames, hcounts⟩

end Declaration

/-! ### Scopes behind declarations -/

/-- The variables of a level are those declared. -/
def Scope.Knows (scope : Scope) (level : Level) (earlier : Earlier) : Prop :=
  (∀ name, (scope.varsAt level)[name]?.map Variable.kind = earlier.lookup name) ∧
    ∀ kind, kind.level = level → scope.countOf kind = earlier.countP (·.2 = kind)

theorem Scope.knows_empty (className : String) (level : Level) :
    (Scope.empty className).Knows level [] := by
  constructor
  · intro name
    cases level <;> simp [empty, varsAt]
  · intro kind _
    cases kind <;> rfl

theorem Scope.knows_startSubroutine (scope : Scope) :
    scope.startSubroutine.Knows .subroutineLevel [] := by
  constructor
  · intro name
    simp [startSubroutine, varsAt]
  · intro kind hkind
    cases kind with
    | static | field => simp [VarKind.level] at hkind
    | argument | localVar => rfl

theorem Scope.Knows.insert {scope : Scope} {earlier : Earlier} {name type : String}
    {kind : VarKind} {level : Level} {index : Nat} (h : scope.Knows level earlier)
    (hlevel : kind.level = level) :
    (scope.insert ⟨name, type, kind, index⟩).Knows level ((name, kind) :: earlier) := by
  constructor
  · intro name'
    rw [varsAt_insert, if_pos hlevel, Std.HashMap.getElem?_insert, List.lookup_cons]
    by_cases hname : name = name'
    · simp [hname]
    · have hname' : (name' == name) = false := by simpa using Ne.symm hname
      simp only [beq_iff_eq, hname, if_false, hname']
      exact h.1 name'
  · intro kind' hkind
    rw [countOf_insert, h.2 kind' hkind, List.countP_cons]
    simp

namespace Generator

/-- What keeps a name from being declared is the error of its declaration. -/
theorem errorOf_obstacle? {scope : Scope} {earlier : Earlier} {d : Declaration}
    (h : scope.Knows d.kind.level earlier) :
    (scope.obstacle? d.name.name d.kind).map (declareError d.name) = d.error? earlier := by
  simp only [Scope.obstacle?, Declaration.error?, ← h.1, h.2 d.kind rfl]
  cases (scope.varsAt d.kind.level)[d.name.name]? with
  | some v => rfl
  | none =>
    simp only [Option.map_none]
    split <;> rfl

/-- The declarations are made by a step that goes from one scope to the next. -/
def Declares (level : Level) (ds : List Declaration)
    (step : Scope → Except (CompileError × Scope) Scope) : Prop :=
  ∀ scope earlier, scope.Knows level earlier →
    errorOf Prod.fst (step scope) = (Declaration.errors earlier ds).head? ∧
      ∀ scope', step scope = .ok scope' → scope'.Knows level ((ds.map (·.entry)).reverse ++ earlier)

namespace Declares

variable {level : Level} {ds ds' : List Declaration}
  {step step' : Scope → Except (CompileError × Scope) Scope}

theorem nil : Declares level [] .ok := by
  intro scope earlier h
  refine ⟨rfl, fun scope' hscope => ?_⟩
  obtain rfl := Except.ok.inj hscope
  exact h

theorem append (h : Declares level ds step) (h' : Declares level ds' step') :
    Declares level (ds ++ ds') fun scope => step scope >>= step' := by
  intro scope earlier hknows
  obtain ⟨herror, hafter⟩ := h scope earlier hknows
  constructor
  · rw [Declaration.errors_append, List.head?_append, ← herror]
    apply errorOf_bind
    intro scope₁ hstep
    exact (h' scope₁ _ (hafter scope₁ hstep)).1
  · intro scope' hscope
    obtain ⟨scope₁, hstep, hstep'⟩ := bind_eq_ok_iff.1 hscope
    have hknows' := (h' scope₁ _ (hafter scope₁ hstep)).2 scope' hstep'
    simpa using hknows'

end Declares

theorem declare_single (type : String) (d : Declaration) :
    Declares d.kind.level [d] (declare type d.kind [d.name]) := by
  intro scope earlier h
  have herror := errorOf_obstacle? h
  obtain ⟨e, hobstacle, heq⟩ | ⟨hobstacle, heq⟩ := scope.define_eq d.name.name type d.kind
  · rw [hobstacle] at herror
    simp only [declare, heq, Declaration.errors, ← herror]
    exact ⟨rfl, by simp⟩
  · rw [hobstacle] at herror
    simp only [declare, heq, Declaration.errors, ← herror]
    refine ⟨rfl, fun scope' hscope => ?_⟩
    obtain rfl := Except.ok.inj hscope
    exact h.insert rfl

theorem declare_cons (type : String) (kind : VarKind) (name : Ident) (names : List Ident)
    (scope : Scope) : declare type kind (name :: names) scope =
      declare type kind [name] scope >>= declare type kind names := by
  simp only [declare]
  split <;> rfl

theorem declare_declares (type : String) (kind : VarKind) (names : List Ident) :
    Declares kind.level (names.map (⟨·, kind⟩)) (declare type kind names) := by
  induction names with
  | nil => exact .nil
  | cons name names ih =>
    have hsplit : declare type kind (name :: names) = _ :=
      funext (declare_cons type kind name names)
    rw [hsplit]
    exact (declare_single type ⟨name, kind⟩).append ih

end Generator

/-- The static variables and fields of a class. -/
def ClassDecl.declarations (decl : ClassDecl) : List Declaration :=
  decl.vars.flatMap fun dec => dec.names.toList.map (⟨·, dec.kind.varKind⟩)

namespace Subroutine

/-- The parameters of a subroutine, and then its local variables. -/
def declarations (sub : Subroutine) : List Declaration :=
  (sub.params.elim [] Separated.toList).map (fun p => ⟨p.name, .argument⟩) ++
    sub.body.vars.flatMap fun dec => dec.names.toList.map (⟨·, .localVar⟩)

/-- A method has its object before its parameters. -/
def hidden (sub : Subroutine) : Earlier :=
  if sub.kind = .method then [("this", .argument)] else []

end Subroutine

theorem ClassDecl.mem_terminals_of_declaration {decl : ClassDecl} {d : Declaration}
    (h : d ∈ decl.declarations) : d.name.terminal ∈ decl.terminals := by
  obtain ⟨dec, hdec, hd⟩ := List.mem_flatMap.1 h
  obtain ⟨name, hname, rfl⟩ := List.mem_map.1 hd
  have hnames : name.terminal ∈ dec.names.terminals Ident.terminals :=
    Separated.mem_terminals hname (by simp [Ident.terminals])
  have hvars : name.terminal ∈ decl.vars.flatMap ClassVarDec.terminals :=
    List.mem_flatMap.2 ⟨dec, hdec, by simp [ClassVarDec.terminals, hnames]⟩
  simp [terminals, hvars]

theorem Subroutine.mem_terminals_of_declaration {sub : Subroutine} {d : Declaration}
    (h : d ∈ sub.declarations) : d.name.terminal ∈ sub.terminals := by
  rcases List.mem_append.1 h with h | h
  · obtain ⟨p, hp, rfl⟩ := List.mem_map.1 h
    have hparams : p.name.terminal ∈ paramTerminals sub.params := by
      cases hsome : sub.params with
      | none => simp [hsome] at hp
      | some params =>
        rw [hsome] at hp
        exact Separated.mem_terminals hp (by simp [Param.terminals])
    simp [terminals, hparams]
  · obtain ⟨dec, hdec, hd⟩ := List.mem_flatMap.1 h
    obtain ⟨name, hname, rfl⟩ := List.mem_map.1 hd
    have hnames : name.terminal ∈ dec.names.terminals Ident.terminals :=
      Separated.mem_terminals hname (by simp [Ident.terminals])
    have hvars : name.terminal ∈ sub.body.vars.flatMap VarDec.terminals :=
      List.mem_flatMap.2 ⟨dec, hdec, by simp [VarDec.terminals, hnames]⟩
    simp [terminals, Body.terminals, hvars]

namespace Generator

theorem declareClassVars_declares (decs : List ClassVarDec) :
    Declares .classLevel (decs.flatMap fun dec => dec.names.toList.map (⟨·, dec.kind.varKind⟩))
      (declareClassVars decs) := by
  induction decs with
  | nil => exact .nil
  | cons dec decs ih =>
    have hlevel : dec.kind.varKind.level = .classLevel := by cases dec.kind <;> rfl
    have hdec := declare_declares dec.type.name dec.kind.varKind dec.names.toList
    rw [hlevel] at hdec
    exact hdec.append ih

theorem declareParams_declares (params : List Param) :
    Declares .subroutineLevel (params.map fun p => ⟨p.name, .argument⟩) (declareParams params) := by
  induction params with
  | nil => exact .nil
  | cons p params ih => exact (declare_declares p.type.name .argument [p.name]).append ih

theorem declareVars_declares (decs : List VarDec) :
    Declares .subroutineLevel (decs.flatMap fun dec => dec.names.toList.map (⟨·, .localVar⟩))
      (declareVars decs) := by
  induction decs with
  | nil => exact .nil
  | cons dec decs ih =>
    exact (declare_declares dec.type.name .localVar dec.names.toList).append ih

/-- The object of a method can always be declared. -/
theorem declareThis_knows (sub : Subroutine) (scope : Scope) :
    ∃ scope', declareThis sub scope.startSubroutine = .ok scope' ∧
      scope'.Knows .subroutineLevel sub.hidden := by
  have hstart := scope.knows_startSubroutine
  cases hkind : sub.kind with
  | method =>
    have hobstacle : scope.startSubroutine.obstacle? "this" .argument = none := by
      simp [Scope.obstacle?, Scope.startSubroutine, Scope.varsAt, VarKind.level, Scope.countOf,
        Counts.get, maxVariables]
    obtain ⟨e, hsome, -⟩ | ⟨-, heq⟩ := scope.startSubroutine.define_eq "this"
      scope.startSubroutine.className .argument
    · simp [hobstacle] at hsome
    · simp only [declareThis, hkind, heq, Subroutine.hidden, if_true]
      exact ⟨_, rfl, hstart.insert rfl⟩
  | constructor | function =>
    simp only [declareThis, hkind, Subroutine.hidden, reduceCtorEq, if_false]
    exact ⟨_, rfl, hstart⟩

theorem openScope_errorOf (sub : Subroutine) (scope : Scope) :
    errorOf Prod.fst (openScope sub scope) =
      (Declaration.errors sub.hidden sub.declarations).head? := by
  obtain ⟨scope₁, hthis, hknows⟩ := declareThis_knows sub scope
  have hrest := (declareParams_declares (sub.params.elim [] Separated.toList)).append
    (declareVars_declares sub.body.vars)
  rw [openScope, hthis]
  exact (hrest scope₁ _ hknows).1

end Generator

/-! ### Violations -/

theorem Scope.Lists.isSome_lookup_iff {scope : Scope} {declared : Scope.Declared} {name : String}
    (h : scope.Lists declared) :
    (scope.lookup name).isSome ↔ ∃ kind, name ∈ (declared kind).map Prod.fst := by
  simp only [mem_map_fst_iff]
  constructor
  · intro hsome
    obtain ⟨v, hv⟩ := Option.isSome_iff_exists.1 hsome
    obtain ⟨rfl, hhas, -⟩ := h.lookup_eq_some_iff.1 hv
    exact ⟨v.kind, v.index, v.type, hhas⟩
  · rintro ⟨kind, index, type, hhas⟩
    have hv := (h.varsAt kind.level name ⟨name, type, kind, index⟩).2 ⟨rfl, rfl, hhas⟩
    unfold lookup
    cases hlevel : kind.level with
    | subroutineLevel =>
      have hv' : scope.subroutineVars[name]? = _ := hlevel ▸ hv
      simp [hv']
    | classLevel =>
      have hv' : scope.classVars[name]? = _ := hlevel ▸ hv
      cases hsub : scope.subroutineVars[name]? with
      | some w => rfl
      | none => simp [hv']

/-- The names of variables in a subroutine of a class. -/
def ClassDecl.namesIn (decl : ClassDecl) (sub : Subroutine) : List String :=
  ((sub.parameters ++ sub.locals) ++ (decl.variables .static ++ decl.variables .field)).map Prod.fst

theorem exists_mem_declaredIn_iff {decl : ClassDecl} {sub : Subroutine} {name : String}
    (hname : name ≠ "this") :
    (∃ kind, name ∈ (declaredIn decl sub kind).map Prod.fst) ↔ name ∈ decl.namesIn sub := by
  have hargument : name ∈ (declaredIn decl sub .argument).map Prod.fst ↔
      name ∈ sub.parameters.map Prod.fst := by
    by_cases hmethod : sub.kind = .method <;> simp [declaredIn, hmethod, hname]
  simp only [ClassDecl.namesIn, List.map_append, List.mem_append]
  constructor
  · rintro ⟨kind, hmem⟩
    cases kind with
    | static => exact .inr (.inl hmem)
    | field => exact .inr (.inr hmem)
    | argument => exact .inl (.inl (hargument.1 hmem))
    | localVar => exact .inl (.inr hmem)
  · rintro ((hmem | hmem) | hmem | hmem)
    · exact ⟨.argument, hargument.2 hmem⟩
    · exact ⟨.localVar, hmem⟩
    · exact ⟨.static, hmem⟩
    · exact ⟨.field, hmem⟩

/-- The violations of a subroutine: those of its declarations, and then those of its body. -/
def Subroutine.violations (decl : ClassDecl) (sub : Subroutine) : List CompileError :=
  Declaration.errors sub.hidden sub.declarations ++
    sub.body.statements.sites.filterMap (Site.error? fun name => name ∈ decl.namesIn sub)

/-- The violations of a class: those of its variables, and then those of its subroutines. -/
def ClassDecl.violations (decl : ClassDecl) : List CompileError :=
  Declaration.errors [] decl.declarations ++ decl.subroutines.flatMap (Subroutine.violations decl)

/-- A violation is at a terminal of the class. -/
theorem ClassDecl.exists_terminal_of_violation {decl : ClassDecl} {e : CompileError}
    (h : e ∈ decl.violations) : ∃ x ∈ decl.terminals, x.token.span = e.span := by
  rcases List.mem_append.1 h with h | h
  · obtain ⟨d, hd, hspan⟩ := Declaration.exists_of_mem_errors h
    exact ⟨d.name.terminal, mem_terminals_of_declaration hd, hspan⟩
  · obtain ⟨sub, hsub, he⟩ := List.mem_flatMap.1 h
    rcases List.mem_append.1 he with he | he
    · obtain ⟨d, hd, hspan⟩ := Declaration.exists_of_mem_errors he
      have hmem := Subroutine.mem_terminals_of_declaration hd
      exact ⟨d.name.terminal, terminals_subroutine_subset hsub hmem, hspan⟩
    · obtain ⟨site, hsite, herror⟩ := List.mem_filterMap.1 he
      obtain ⟨x, hx, hspan⟩ := Site.span_of_error? herror
      have hmem := sub.terminals_statements_subset (sub.body.statements.sitesIn site hsite x hx)
      exact ⟨x, terminals_subroutine_subset hsub hmem, hspan⟩

namespace Generator

theorem openScope_sees {decl : ClassDecl} {sub : Subroutine} {g : Generator} {scope : Scope}
    (h : openScope sub g.scope = .ok scope) (hclass : g.HasClass decl) {name : String}
    (hname : name ≠ "this") :
    Context.sees ⟨scope, sub.kind⟩ name = decide (name ∈ decl.namesIn sub) := by
  rw [Bool.eq_iff_iff, decide_eq_true_iff, ← exists_mem_declaredIn_iff hname]
  exact (openScope_declaredIn h hclass).isSome_lookup_iff

theorem subroutine_errorOf {decl : ClassDecl} {sub : Subroutine} {g : Generator}
    (hclass : g.HasClass decl) (hthis : NoThis sub.terminals) :
    errorOf Prod.fst (subroutine sub g) = (sub.violations decl).head? := by
  rw [Subroutine.violations, List.head?_append, List.head?_filterMap,
    ← openScope_errorOf sub g.scope, subroutine]
  cases hscope : openScope sub g.scope with
  | error e => rfl
  | ok scope =>
    have hsites := sub.body.statements.sitesIn.firstError?_congr fun name span hmem =>
      openScope_sees hscope hclass fun hname =>
        hthis span (sub.terminals_statements_subset (hname ▸ hmem))
    have hbody := (Context.stmts_errorOf ⟨scope, sub.kind⟩ sub.body.statements
      ((header sub scope).foldl Output.emit g.output)).trans hsites
    simp only [errorOf, Option.none_or]
    rw [← firstError?, ← hbody]
    cases Context.stmts ⟨scope, sub.kind⟩ sub.body.statements
      ((header sub scope).foldl Output.emit g.output) <;> rfl

theorem subroutine_hasClass {decl : ClassDecl} {sub : Subroutine} {g g' : Generator}
    (hclass : g.HasClass decl) (h : subroutine sub g = .ok g') : g'.HasClass decl :=
  openScope_hasClass (subroutine_eq_ok h).1 hclass _

theorem subroutines_errorOf {decl : ClassDecl} {subs : List Subroutine} {begun : Nat}
    {g : Generator} (hclass : g.HasClass decl) (hthis : ∀ sub ∈ subs, NoThis sub.terminals) :
    errorOf Failure.error (subroutines begun subs g) =
      (subs.flatMap (Subroutine.violations decl)).head? := by
  induction subs generalizing begun g with
  | nil => rfl
  | cons sub subs ih =>
    have hsub := subroutine_errorOf hclass (hthis sub List.mem_cons_self)
    rw [List.flatMap_cons, List.head?_append, ← hsub, subroutines]
    split
    next heq => simp [heq, errorOf]
    next heq =>
      simp only [heq, errorOf, Option.none_or]
      exact ih (subroutine_hasClass hclass heq) fun sub hmem =>
        hthis sub (List.mem_cons_of_mem _ hmem)

theorem classDecl_errorOf {decl : ClassDecl} (hthis : NoThis decl.terminals) :
    errorOf Failure.error (classDecl decl .empty) = decl.violations.head? := by
  have hvars := (declareClassVars_declares decl.vars (.empty decl.name.name) []
    (Scope.knows_empty _ _)).1
  rw [ClassDecl.violations, List.head?_append, ClassDecl.declarations, ← hvars, classDecl]
  have hscope : { Generator.empty.scope with className := decl.name.name } =
    Scope.empty decl.name.name := rfl
  rw [hscope]
  split
  next heq => simp [heq, errorOf]
  next heq =>
    simp only [heq, errorOf, Option.none_or]
    apply subroutines_errorOf (declareClassVars_hasClass heq _)
    intro sub hmem span hspan
    exact hthis span (ClassDecl.terminals_subroutine_subset hmem hspan)

end Generator

end Jack
