import Jack.Scope

/-!
The scopes that come about by declaring variables and starting subroutines, from an empty one.

`Lists` says what a scope holds in terms of the declarations: a list of names for each kind, in
which the index of a variable is its place.
-/

namespace Jack.Scope

/-- What can become of an empty scope. Declarations that fail are among the steps. -/
inductive Reachable : Scope → Prop
  | empty (className : String) : Reachable (.empty className)
  | rename {scope : Scope} (h : Reachable scope) (className : String) :
      Reachable { scope with className }
  | startSubroutine {scope : Scope} (h : Reachable scope) : Reachable scope.startSubroutine
  | define {scope : Scope} (h : Reachable scope) (name type : String) (kind : VarKind) :
      Reachable (scope.define name type kind).2

variable {scope : Scope} {name type : String} {kind : VarKind} {v : Variable}

theorem define_eq (scope : Scope) (name type : String) (kind : VarKind) :
    (∃ e, scope.obstacle? name kind = some e ∧ scope.define name type kind = (.error e, scope)) ∨
      scope.obstacle? name kind = none ∧ scope.define name type kind =
        (.ok (scope.countOf kind), scope.insert ⟨name, type, kind, scope.countOf kind⟩) := by
  cases h : scope.obstacle? name kind with
  | none => exact .inr ⟨rfl, by simp [define, h]⟩
  | some e => exact .inl ⟨e, rfl, by simp [define, h]⟩

/-- Nothing keeps a name from being declared if it is free at its level and its kind has room. -/
theorem obstacle?_eq_none_iff : scope.obstacle? name kind = none ↔
    (scope.varsAt kind.level)[name]? = none ∧ scope.countOf kind < maxVariables := by
  unfold obstacle?
  split
  next v hv => simp [hv]
  next hfree => simp [hfree]

/-- What a new variable keeps, a declaration keeps, whether it can be made or not. -/
theorem define_keeps {P : Scope → Prop} (h : P scope)
    (hinsert : P (scope.insert ⟨name, type, kind, scope.countOf kind⟩)) :
    P (scope.define name type kind).2 := by
  obtain ⟨e, -, heq⟩ | ⟨-, heq⟩ := scope.define_eq name type kind
  · rwa [heq]
  · rwa [heq]

theorem insert_of_classLevel (scope : Scope) (h : v.kind.level = .classLevel) :
    scope.insert v = { scope with
      classVars := scope.classVars.insert v.name v, counts := scope.counts.increment v.kind } := by
  simp only [insert, h]

theorem insert_of_subroutineLevel (scope : Scope) (h : v.kind.level = .subroutineLevel) :
    scope.insert v = { scope with
      subroutineVars := scope.subroutineVars.insert v.name v
      counts := scope.counts.increment v.kind } := by
  simp only [insert, h]

/-- Variables of the class are of its level. -/
theorem Reachable.level_classVars (h : Reachable scope) (hv : scope.classVars[name]? = some v) :
    v.kind.level = .classLevel := by
  induction h generalizing name v with
  | empty => simp [Scope.empty] at hv
  | rename _ _ ih => exact ih hv
  | startSubroutine _ ih => exact ih hv
  | define _ name' type kind ih =>
    revert hv
    refine define_keeps (P := fun scope => scope.classVars[name]? = some v → _) ih fun hv => ?_
    cases hlevel : kind.level with
    | subroutineLevel =>
      rw [insert_of_subroutineLevel _ hlevel] at hv
      exact ih hv
    | classLevel =>
      rw [insert_of_classLevel _ hlevel, Std.HashMap.getElem?_insert] at hv
      split at hv
      · obtain rfl := Option.some.inj hv
        exact hlevel
      · exact ih hv

theorem lookup_insert_eq_some {w : Variable} (h : (scope.insert v).lookup name = some w) :
    name = v.name ∧ w = v ∨ scope.lookup name = some w := by
  cases hlevel : v.kind.level with
  | subroutineLevel =>
    simp only [insert_of_subroutineLevel _ hlevel, lookup, Std.HashMap.getElem?_insert] at h ⊢
    grind
  | classLevel =>
    simp only [insert_of_classLevel _ hlevel, lookup, Std.HashMap.getElem?_insert] at h ⊢
    grind

theorem countOf_insert (scope : Scope) (v : Variable) (kind : VarKind) :
    (scope.insert v).countOf kind = scope.countOf kind + if v.kind = kind then 1 else 0 := by
  obtain ⟨name, type, vkind, index⟩ := v
  cases vkind <;> cases kind <;> rfl

theorem className_define (scope : Scope) (name type : String) (kind : VarKind) :
    (scope.define name type kind).2.className = scope.className := by
  refine define_keeps (P := fun after => after.className = scope.className) rfl ?_
  cases kind <;> rfl

/-! ### Variables in order -/

/-- Names with their types, a list for each kind. -/
abbrev Declared : Type := VarKind → List (String × String)

namespace Declared

def none : Declared := fun _ => []

/-- The lists with more names of one kind. -/
def add (declared : Declared) (kind : VarKind) (names : List (String × String)) : Declared :=
  fun kind' => if kind' = kind then declared kind ++ names else declared kind'

@[simp] theorem add_nil (declared : Declared) (kind : VarKind) :
    declared.add kind [] = declared := by
  funext kind'
  simp only [add, List.append_nil]
  split <;> simp_all

@[simp] theorem add_add (declared : Declared) (kind : VarKind) (xs ys : List (String × String)) :
    (declared.add kind xs).add kind ys = declared.add kind (xs ++ ys) := by
  funext kind'
  by_cases hkind : kind' = kind <;> simp [add, hkind]

/-- The lists without those of a subroutine. -/
def ofClass (declared : Declared) : Declared :=
  fun kind => if kind.level = .classLevel then declared kind else []

/-- The variable is in the list of its kind, at its index. -/
def Has (declared : Declared) (v : Variable) : Prop :=
  (declared v.kind)[v.index]? = some (v.name, v.type)

theorem has_add_singleton {declared : Declared} :
    (declared.add kind [(name, type)]).Has v ↔
      declared.Has v ∨ v = ⟨name, type, kind, (declared kind).length⟩ := by
  obtain ⟨name', type', kind', index⟩ := v
  by_cases hkind : kind' = kind
  · subst hkind
    simp only [Has, add, if_true, List.getElem?_append, Variable.mk.injEq]
    grind
  · simp [Has, add, hkind]

end Declared

/-- The variables of the scope are those of the lists. -/
structure Lists (scope : Scope) (declared : Declared) : Prop where
  countOf : ∀ kind, scope.countOf kind = (declared kind).length
  varsAt : ∀ (level : Level) (name : String) (v : Variable),
    (scope.varsAt level)[name]? = some v ↔
      v.kind.level = level ∧ v.name = name ∧ declared.Has v

theorem varsAt_insert (scope : Scope) (v : Variable) (level : Level) :
    (scope.insert v).varsAt level =
      if v.kind.level = level then (scope.varsAt level).insert v.name v
      else scope.varsAt level := by
  cases level <;> cases hlevel : v.kind.level <;> simp [insert, hlevel, varsAt]

theorem lists_empty (className : String) : (empty className).Lists .none := by
  refine ⟨fun kind => by cases kind <;> rfl, ?_⟩
  intro level name v
  cases level <;> simp [empty, varsAt, Declared.Has, Declared.none]

namespace Lists

variable {declared : Declared}

theorem rename (h : scope.Lists declared) (className : String) :
    Lists { scope with className } declared :=
  ⟨h.countOf, h.varsAt⟩

/-- A new variable goes to the end of the list of its kind. -/
theorem insert (h : scope.Lists declared) (hfree : (scope.varsAt kind.level)[name]? = none) :
    (scope.insert ⟨name, type, kind, scope.countOf kind⟩).Lists
      (declared.add kind [(name, type)]) := by
  constructor
  · intro kind'
    rw [countOf_insert, h.countOf]
    by_cases hkind : kind' = kind
    · simp [Declared.add, hkind]
    · simp [Declared.add, hkind, Ne.symm hkind]
  · intro level name' v
    have hnot (v : Variable) (hlevel : v.kind.level = kind.level) (hname : v.name = name) :
        ¬ declared.Has v := by
      intro hhas
      have hsome := (h.varsAt kind.level name v).2 ⟨hlevel, hname, hhas⟩
      simp [hfree] at hsome
    rw [varsAt_insert, Declared.has_add_singleton, ← h.countOf]
    by_cases hlevel : kind.level = level
    · subst hlevel
      rw [if_pos rfl, Std.HashMap.getElem?_insert]
      by_cases hname : name = name'
      · subst hname
        simp only [beq_self_eq_true, if_true, Option.some.injEq]
        constructor
        · rintro rfl
          exact ⟨rfl, rfl, .inr rfl⟩
        · rintro ⟨hlevel, hname, hhas | heq⟩
          · exact absurd hhas (hnot v hlevel hname)
          · exact heq.symm
      · simp only [beq_iff_eq, hname, if_false, h.varsAt]
        constructor
        · rintro ⟨hlevel, hname', hhas⟩
          exact ⟨hlevel, hname', .inl hhas⟩
        · rintro ⟨hlevel, hname', hhas | rfl⟩
          · exact ⟨hlevel, hname', hhas⟩
          · exact absurd hname' hname
    · rw [if_neg hlevel, h.varsAt]
      constructor
      · rintro ⟨hlevel', hname', hhas⟩
        exact ⟨hlevel', hname', .inl hhas⟩
      · rintro ⟨hlevel', hname', hhas | rfl⟩
        · exact ⟨hlevel', hname', hhas⟩
        · exact absurd hlevel' hlevel

/-- A declaration that is made adds its variable. -/
theorem define (h : scope.Lists declared) {index : Nat} {after : Scope}
    (hdefine : scope.define name type kind = (.ok index, after)) :
    after.Lists (declared.add kind [(name, type)]) := by
  obtain ⟨e, -, heq⟩ | ⟨hobstacle, heq⟩ := scope.define_eq name type kind
  · simp [heq] at hdefine
  · obtain rfl : _ = after := (Prod.mk.inj (heq.symm.trans hdefine)).2
    exact h.insert (obstacle?_eq_none_iff.1 hobstacle).1

/-- At the start of a subroutine only the variables of the class are left. -/
theorem startSubroutine (h : scope.Lists declared) :
    scope.startSubroutine.Lists declared.ofClass := by
  constructor
  · intro kind
    have hcount := h.countOf kind
    cases kind with
    | static | field => exact hcount
    | argument | localVar => rfl
  · intro level name v
    cases level with
    | classLevel =>
      have hclass : (scope.startSubroutine.varsAt .classLevel)[name]? = some v ↔ _ :=
        h.varsAt .classLevel name v
      rw [hclass]
      by_cases hlevel : v.kind.level = .classLevel
      · simp [Declared.Has, Declared.ofClass, hlevel]
      · simp [hlevel]
    | subroutineLevel =>
      have hempty : (scope.startSubroutine.varsAt .subroutineLevel)[name]? = none := by
        simp [Scope.startSubroutine, Scope.varsAt]
      simp only [hempty, reduceCtorEq, false_iff]
      rintro ⟨hlevel, -, hhas⟩
      simp [Declared.Has, Declared.ofClass, hlevel] at hhas

/-- A name means the variable of the subroutine that it has, or else that of the class. -/
theorem lookup_eq_some_iff (h : scope.Lists declared) :
    scope.lookup name = some v ↔ v.name = name ∧ declared.Has v ∧
      (v.kind.level = .subroutineLevel ∨
        ∀ w : Variable, w.kind.level = .subroutineLevel → w.name = name → ¬ declared.Has w) := by
  have hclass : scope.classVars[name]? = some v ↔ _ := h.varsAt .classLevel name v
  have hsub (w : Variable) : scope.subroutineVars[name]? = some w ↔ _ :=
    h.varsAt .subroutineLevel name w
  unfold lookup
  split
  next w hw =>
    have hwhas := (hsub w).1 hw
    constructor
    · intro heq
      obtain rfl := Option.some.inj heq
      exact ⟨hwhas.2.1, hwhas.2.2, .inl hwhas.1⟩
    · rintro ⟨hname, hhas, hlevel | hnone⟩
      · exact hw.symm.trans ((hsub v).2 ⟨hlevel, hname, hhas⟩)
      · exact absurd hwhas.2.2 (hnone w hwhas.1 hwhas.2.1)
  next hnone =>
    have hfree (w : Variable) (hlevel : w.kind.level = .subroutineLevel) (hname : w.name = name) :
        ¬ declared.Has w := by
      intro hhas
      have hsome := (hsub w).2 ⟨hlevel, hname, hhas⟩
      simp [hnone] at hsome
    rw [hclass]
    constructor
    · rintro ⟨-, hname, hhas⟩
      exact ⟨hname, hhas, .inr hfree⟩
    · rintro ⟨hname, hhas, -⟩
      cases hlevel : v.kind.level with
      | classLevel => exact ⟨rfl, hname, hhas⟩
      | subroutineLevel => exact absurd hhas (hfree v hlevel hname)

/-- No two variables of one level have the same name. -/
theorem eq_of_has (h : scope.Lists declared) {w : Variable} (hv : declared.Has v)
    (hw : declared.Has w) (hlevel : v.kind.level = w.kind.level) (hname : v.name = w.name) :
    v = w := by
  have hv' := (h.varsAt v.kind.level v.name v).2 ⟨rfl, rfl, hv⟩
  have hw' := (h.varsAt v.kind.level v.name w).2 ⟨hlevel.symm, hname.symm, hw⟩
  exact Option.some.inj (hv'.symm.trans hw')

end Lists
end Jack.Scope
