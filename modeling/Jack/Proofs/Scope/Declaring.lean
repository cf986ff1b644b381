import Jack.Proofs.Scope.Density

/-!
What a declaration does to a scope. Either it fails and changes nothing, or it stores one variable
at the level of its kind and counts it. A stored variable stays until its level is cleared; one of
the class is hidden for as long as the subroutine has a variable of its name.
-/

namespace Jack.Scope

/-- The change forgets the variables of the level. -/
def Change.clears (level : Level) : Change → Bool
  | .reset => true
  | .startSubroutine => level = .subroutineLevel
  | .rename _ | .define _ _ _ => false

/-- The scope is the one before with one more variable. -/
structure Adds (scope : Scope) (v : Variable) (after : Scope) : Prop where
  countOf : ∀ kind, after.countOf kind = scope.countOf kind + if v.kind = kind then 1 else 0
  /-- Nothing else is stored or forgotten, at either level. -/
  stored : ∀ (level : Level) (name : String), (after.varsAt level)[name]? =
    if v.kind.level = level ∧ v.name = name then some v else (scope.varsAt level)[name]?
  lookup_of_ne : ∀ name, name ≠ v.name → after.lookup name = scope.lookup name
  /-- The name of a variable of a subroutine means it, up to the next subroutine. -/
  shown : v.kind.level = .subroutineLevel → ∀ later : List Change,
    (∀ c ∈ later, c.clears .subroutineLevel = false) →
      (after.changes later).lookup v.name = some v
  /-- The name of a variable of the class means it, except while the subroutine has one, too. -/
  hidden : v.kind.level = .classLevel → ∀ later : List Change,
    (∀ c ∈ later, c.clears .classLevel = false) →
      (after.changes later).lookup v.name =
        (after.changes later).subroutineVars[v.name]?.or (some v)

/-- A declaration is refused for one of two reasons, and is made otherwise. The new variable has the
count of its kind for its index. -/
structure LawfulDefine (scope : Scope) (name type : String) (kind : VarKind) : Prop where
  duplicate : ∀ (taken : String) (existing : VarKind),
    (scope.define name type kind).1 = .error (.duplicate taken existing) ↔
      taken = name ∧ ∃ v, (scope.varsAt kind.level)[name]? = some v ∧ v.kind = existing
  overflow : ∀ full : VarKind,
    (scope.define name type kind).1 = .error (.overflow full) ↔
      full = kind ∧ (scope.varsAt kind.level)[name]? = none ∧ scope.countOf kind = 65535
  unchanged : ∀ e : ScopeError, (scope.define name type kind).1 = .error e →
    (scope.define name type kind).2 = scope
  added : (scope.varsAt kind.level)[name]? = none → scope.countOf kind ≠ 65535 →
    ∃ after, scope.define name type kind = (.ok (scope.countOf kind), after) ∧
      scope.Adds ⟨name, type, kind, scope.countOf kind⟩ after

/-- At the start of a subroutine the variables of the class come to light, all of them and no
others. -/
structure LawfulStart (scope : Scope) : Prop where
  lookup : ∀ name, scope.startSubroutine.lookup name = scope.classVars[name]?
  classVars : ∀ name : String, scope.startSubroutine.classVars[name]? = scope.classVars[name]?
  countOf : ∀ kind, scope.startSubroutine.countOf kind =
    if kind.level = .classLevel then scope.countOf kind else 0

variable {scope : Scope} {name type : String} {kind : VarKind} {v : Variable} {level : Level}

/-! ### Outcomes -/

theorem define_eq_error_iff {e : ScopeError} :
    (scope.define name type kind).1 = .error e ↔ scope.obstacle? name kind = some e := by
  obtain ⟨e', hobstacle, heq⟩ | ⟨hobstacle, heq⟩ := scope.define_eq name type kind
  · rw [heq, hobstacle, Except.error.injEq, Option.some.injEq]
  · simp [heq, hobstacle]

theorem obstacle?_eq_duplicate_iff {taken : String} {existing : VarKind} :
    scope.obstacle? name kind = some (.duplicate taken existing) ↔
      taken = name ∧ ∃ v, (scope.varsAt kind.level)[name]? = some v ∧ v.kind = existing := by
  unfold obstacle?
  split
  next v hv => simp [hv, eq_comm]
  next hfree =>
    simp only [hfree]
    split <;> simp

theorem obstacle?_eq_overflow_iff {full : VarKind} (hcount : scope.countOf kind ≤ 65535) :
    scope.obstacle? name kind = some (.overflow full) ↔
      full = kind ∧ (scope.varsAt kind.level)[name]? = none ∧ scope.countOf kind = 65535 := by
  have hmax : maxVariables = 65535 := rfl
  unfold obstacle?
  split
  next v hv => simp [hv]
  next hfree =>
    split
    next hlt =>
      simp only [reduceCtorEq, false_iff]
      omega
    next hnot =>
      have hfull : scope.countOf kind = 65535 := by omega
      simp [hfree, hfull, eq_comm]

theorem define_of_free (hfree : (scope.varsAt kind.level)[name]? = none)
    (hroom : scope.countOf kind < maxVariables) : scope.define name type kind =
      (.ok (scope.countOf kind), scope.insert ⟨name, type, kind, scope.countOf kind⟩) := by
  have hobstacle := obstacle?_eq_none_iff.2 ⟨hfree, hroom⟩
  simp [define, hobstacle]

theorem define_snd_of_error {e : ScopeError} (h : (scope.define name type kind).1 = .error e) :
    (scope.define name type kind).2 = scope := by
  obtain ⟨e', -, heq⟩ | ⟨-, heq⟩ := scope.define_eq name type kind
  · rw [heq]
  · simp [heq] at h

/-! ### Variables that stay -/

theorem getElem?_varsAt_insert (scope : Scope) (v : Variable) (level : Level) (name : String) :
    ((scope.insert v).varsAt level)[name]? =
      if v.kind.level = level ∧ v.name = name then some v else (scope.varsAt level)[name]? := by
  rw [varsAt_insert]
  by_cases hlevel : v.kind.level = level
  · rw [if_pos hlevel, Std.HashMap.getElem?_insert]
    by_cases hname : v.name = name <;> simp [hlevel, hname]
  · simp [hlevel]

/-- No declaration replaces a variable: one of the same name at the same level fails. -/
theorem getElem?_varsAt_define (h : (scope.varsAt level)[name]? = some v)
    (name' type' : String) (kind' : VarKind) :
    ((scope.define name' type' kind').2.varsAt level)[name]? = some v := by
  obtain ⟨e, -, heq⟩ | ⟨hobstacle, heq⟩ := scope.define_eq name' type' kind'
  · rwa [heq]
  · obtain ⟨hfree, -⟩ := obstacle?_eq_none_iff.1 hobstacle
    rw [heq, getElem?_varsAt_insert, if_neg, h]
    rintro ⟨rfl, rfl⟩
    simp [h] at hfree

theorem getElem?_varsAt_change (h : (scope.varsAt level)[name]? = some v) {c : Change}
    (hkeep : c.clears level = false) : ((scope.change c).varsAt level)[name]? = some v := by
  cases c with
  | rename className =>
    cases level with
    | classLevel | subroutineLevel => exact h
  | define name' type' kind' => exact getElem?_varsAt_define h name' type' kind'
  | startSubroutine =>
    cases level with
    | classLevel => exact h
    | subroutineLevel => simp [Change.clears] at hkeep
  | reset => simp [Change.clears] at hkeep

/-- A variable stays as long as its level is not cleared. -/
theorem getElem?_varsAt_changes (h : (scope.varsAt level)[name]? = some v) {cs : List Change}
    (hkeep : ∀ c ∈ cs, c.clears level = false) :
    ((scope.changes cs).varsAt level)[name]? = some v := by
  induction cs generalizing scope with
  | nil => exact h
  | cons c cs ih =>
    obtain ⟨hc, hcs⟩ := List.forall_mem_cons.1 hkeep
    exact ih (getElem?_varsAt_change h hc) hcs

/-! ### Lookups -/

/-- A name means the variable of the subroutine that has it, or else that of the class. -/
theorem lookup_eq_or (scope : Scope) (name : String) :
    scope.lookup name =
      (scope.varsAt .subroutineLevel)[name]?.or (scope.varsAt .classLevel)[name]? := by
  have hsub : scope.varsAt .subroutineLevel = scope.subroutineVars := rfl
  unfold lookup
  split
  next w hw => rw [hsub, hw, Option.some_or]
  next hnone =>
    rw [hsub, hnone, Option.none_or]
    rfl

theorem adds_insert (scope : Scope) (v : Variable) : scope.Adds v (scope.insert v) := by
  have hstored := scope.getElem?_varsAt_insert v
  have hown : ((scope.insert v).varsAt v.kind.level)[v.name]? = some v := by simp [hstored]
  refine ⟨scope.countOf_insert v, hstored, ?_, ?_, ?_⟩
  · intro other hne
    have hsame (level : Level) :
        ((scope.insert v).varsAt level)[other]? = (scope.varsAt level)[other]? := by
      rw [hstored, if_neg fun h => hne h.2.symm]
    rw [lookup_eq_or, lookup_eq_or, hsame, hsame]
  · intro hlevel later hkeep
    rw [hlevel] at hown
    rw [lookup_eq_or, getElem?_varsAt_changes hown hkeep, Option.some_or]
  · intro hlevel later hkeep
    rw [hlevel] at hown
    rw [lookup_eq_or, getElem?_varsAt_changes hown hkeep]
    rfl

theorem lawfulStart (scope : Scope) : scope.LawfulStart where
  lookup name := by simp [lookup, startSubroutine]
  classVars _ := rfl
  countOf kind := by cases kind <;> rfl

/-! ### Every scope -/

/-- Whatever has been done to an empty scope: a declaration is refused if the name is taken at its
level, or else if its kind is full, and then the scope stays as it is; otherwise one variable is
added. The start of a subroutine leaves the variables of the class, and no others. -/
theorem changes_empty_lawful (className : String) (cs : List Change) :
    (∀ (name type : String) (kind : VarKind),
      ((empty className).changes cs).LawfulDefine name type kind) ∧
      ((empty className).changes cs).LawfulStart := by
  obtain ⟨-, -, hcounts⟩ := (bounded_empty className).changes cs
  generalize (empty className).changes cs = scope at hcounts ⊢
  refine ⟨fun name type kind => ?_, scope.lawfulStart⟩
  constructor
  · intro taken existing
    rw [define_eq_error_iff, obstacle?_eq_duplicate_iff]
  · intro full
    rw [define_eq_error_iff, obstacle?_eq_overflow_iff (hcounts kind)]
  · intro e h
    exact define_snd_of_error h
  · intro hfree hcount
    have hroom : scope.countOf kind < maxVariables := Nat.lt_of_le_of_ne (hcounts kind) hcount
    exact ⟨_, define_of_free hfree hroom, scope.adds_insert _⟩

end Jack.Scope
