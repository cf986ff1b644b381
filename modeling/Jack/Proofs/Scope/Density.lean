import Jack.Proofs.Scope
import Mathlib.Data.List.Perm.Basic

/-!
The indices of variables. Whatever is done to an empty scope, the variables of each kind have the
indices below its count, each once, and the counts stay in their bounds.
-/

namespace Jack.Scope

/-- What can be done to a scope. -/
inductive Change where
  | rename (className : String)
  | define (name type : String) (kind : VarKind)
  | startSubroutine
  | reset
deriving DecidableEq, Repr

/-- The scope after a change. A declaration that fails is a change too. -/
def change (scope : Scope) : Change → Scope
  | .rename className => { scope with className }
  | .define name type kind => (scope.define name type kind).2
  | .startSubroutine => scope.startSubroutine
  | .reset => scope.reset

/-- The scope after changes, one after the other. -/
def changes (scope : Scope) (cs : List Change) : Scope := cs.foldl change scope

/-- The variables that are stored, with the names that they are stored under. -/
def entries (scope : Scope) : List (String × Variable) :=
  scope.classVars.toList ++ scope.subroutineVars.toList

/-- The indices of the stored variables of a kind, in no particular order. -/
def indices (scope : Scope) (kind : VarKind) : List Nat :=
  (scope.entries.filter (·.2.kind = kind)).map (·.2.index)

/-- The variables have their slots: no index is left out or given twice. -/
structure Dense (scope : Scope) : Prop where
  indices : ∀ kind, (scope.indices kind).Perm (List.range (scope.countOf kind))
  classVars : ∀ (name : String) (v : Variable), scope.classVars[name]? = some v →
    v.name = name ∧ (v.kind = .static ∨ v.kind = .field)
  subroutineVars : ∀ (name : String) (v : Variable), scope.subroutineVars[name]? = some v →
    v.name = name ∧ (v.kind = .argument ∨ v.kind = .localVar)
  countOf_le : ∀ kind, scope.countOf kind ≤ 65535

variable {scope : Scope} {declared : Declared} {kind : VarKind}

/-! ### Variables of one kind -/

theorem mem_toList_varsAt {level : Level} {entry : String × Variable} :
    entry ∈ (scope.varsAt level).toList ↔ (scope.varsAt level)[entry.1]? = some entry.2 :=
  Std.HashMap.mem_toList_iff_getElem?_eq_some

/-- The variables of a kind are stored at its level. -/
theorem Lists.filter_entries (h : scope.Lists declared) (kind : VarKind) :
    scope.entries.filter (·.2.kind = kind) =
      (scope.varsAt kind.level).toList.filter (·.2.kind = kind) := by
  have hother (level : Level) (hlevel : kind.level ≠ level) :
      (scope.varsAt level).toList.filter (·.2.kind = kind) = [] := by
    rw [List.filter_eq_nil_iff]
    intro entry hentry
    have hv := (h.varsAt level entry.1 entry.2).1 (mem_toList_varsAt.1 hentry)
    simp only [decide_eq_true_eq]
    rintro rfl
    exact hlevel hv.1
  have hentries : scope.entries =
      (scope.varsAt .classLevel).toList ++ (scope.varsAt .subroutineLevel).toList := rfl
  rw [hentries, List.filter_append]
  cases hlevel : kind.level with
  | classLevel => rw [hother .subroutineLevel (by simp [hlevel]), List.append_nil]
  | subroutineLevel => rw [hother .classLevel (by simp [hlevel]), List.nil_append]

theorem Lists.mem_indices (h : scope.Lists declared) {index : Nat} :
    index ∈ scope.indices kind ↔ index < scope.countOf kind := by
  rw [indices, h.filter_entries, h.countOf]
  constructor
  · intro hmem
    obtain ⟨entry, hentry, rfl⟩ := List.mem_map.1 hmem
    obtain ⟨hentry, hkind⟩ := List.mem_filter.1 hentry
    obtain ⟨-, -, hhas⟩ := (h.varsAt _ _ _).1 (mem_toList_varsAt.1 hentry)
    obtain rfl : entry.2.kind = kind := by simpa using hkind
    exact (List.getElem?_eq_some_iff.1 hhas).1
  · intro hlt
    let v : Variable := ⟨(declared kind)[index].1, (declared kind)[index].2, kind, index⟩
    have hhas : declared.Has v := List.getElem?_eq_getElem hlt
    have hentry := (h.varsAt kind.level v.name v).2 ⟨rfl, rfl, hhas⟩
    refine List.mem_map.2 ⟨(v.name, v), List.mem_filter.2 ⟨mem_toList_varsAt.2 hentry, ?_⟩, rfl⟩
    simp [v]

/-- Two names of one kind have different indices. -/
theorem Lists.nodup_indices (h : scope.Lists declared) : (scope.indices kind).Nodup := by
  rw [indices, h.filter_entries, List.Nodup, List.pairwise_map]
  have hkeys := (Std.HashMap.distinct_keys_toList (m := scope.varsAt kind.level)).filter
    (·.2.kind = kind)
  refine hkeys.imp_of_mem fun {entry entry'} hentry hentry' hne heq => ?_
  obtain ⟨hentry, hkind⟩ := List.mem_filter.1 hentry
  obtain ⟨hentry', hkind'⟩ := List.mem_filter.1 hentry'
  obtain ⟨-, hname, hhas⟩ := (h.varsAt _ _ _).1 (mem_toList_varsAt.1 hentry)
  obtain ⟨-, hname', hhas'⟩ := (h.varsAt _ _ _).1 (mem_toList_varsAt.1 hentry')
  have hkinds : entry.2.kind = entry'.2.kind := by
    simp only [decide_eq_true_eq] at hkind hkind'
    rw [hkind, hkind']
  -- The declarations have one name at this place of the list.
  rw [Declared.Has, hkinds, heq, hhas', Option.some.injEq, Prod.mk.injEq] at hhas
  simp [← hname, ← hname', hhas.1] at hne

theorem Lists.dense (h : scope.Lists declared) (hcounts : ∀ kind, scope.countOf kind ≤ 65535) :
    scope.Dense where
  indices kind := by
    rw [List.perm_ext_iff_of_nodup h.nodup_indices List.nodup_range]
    intro index
    rw [h.mem_indices, List.mem_range]
  classVars name v hv := by
    obtain ⟨hlevel, hname, -⟩ := (h.varsAt .classLevel name v).1 hv
    refine ⟨hname, ?_⟩
    cases hkind : v.kind <;> simp_all [VarKind.level]
  subroutineVars name v hv := by
    obtain ⟨hlevel, hname, -⟩ := (h.varsAt .subroutineLevel name v).1 hv
    refine ⟨hname, ?_⟩
    cases hkind : v.kind <;> simp_all [VarKind.level]
  countOf_le := hcounts

/-! ### Changes -/

/-- What every change keeps: the variables are those of some lists, none of them too long. -/
def Bounded (scope : Scope) : Prop :=
  ∃ declared, scope.Lists declared ∧ ∀ kind, scope.countOf kind ≤ 65535

theorem bounded_empty (className : String) : (empty className).Bounded :=
  ⟨_, lists_empty className, fun kind => by cases kind <;> exact Nat.zero_le _⟩

/-- A declaration either fails and changes nothing, or its kind had room for it and it counts one
more of its kind and no other. -/
theorem define_counts (scope : Scope) (name type : String) (kind : VarKind) :
    (∃ e, scope.define name type kind = (.error e, scope)) ∨
      ∃ after, scope.define name type kind = (.ok (scope.countOf kind), after) ∧
        scope.countOf kind < 65535 ∧
        ∀ kind', after.countOf kind' = scope.countOf kind' + if kind = kind' then 1 else 0 := by
  obtain ⟨e, -, heq⟩ | ⟨hobstacle, heq⟩ := scope.define_eq name type kind
  · exact .inl ⟨e, heq⟩
  · obtain ⟨-, hroom⟩ := obstacle?_eq_none_iff.1 hobstacle
    exact .inr ⟨_, heq, hroom, fun kind' => countOf_insert scope _ kind'⟩

theorem Bounded.define (h : scope.Bounded) (name type : String) (kind : VarKind) :
    (scope.define name type kind).2.Bounded := by
  obtain ⟨declared, hlists, hcounts⟩ := h
  obtain ⟨e, heq⟩ | ⟨after, heq, hlt, hafter⟩ := scope.define_counts name type kind
  · rw [heq]
    exact ⟨declared, hlists, hcounts⟩
  · rw [heq]
    refine ⟨_, hlists.define heq, fun kind' => ?_⟩
    have hkind := hcounts kind'
    rw [hafter]
    split
    next hsame => subst hsame; omega
    next => omega

theorem Bounded.change (h : scope.Bounded) (c : Change) : (scope.change c).Bounded := by
  cases c with
  | rename className =>
    obtain ⟨declared, hlists, hcounts⟩ := h
    exact ⟨declared, hlists.rename className, hcounts⟩
  | define name type kind => exact h.define name type kind
  | startSubroutine =>
    obtain ⟨declared, hlists, hcounts⟩ := h
    refine ⟨_, hlists.startSubroutine, fun kind => ?_⟩
    cases kind with
    | static => exact hcounts .static
    | field => exact hcounts .field
    | argument | localVar => exact Nat.zero_le _
  | reset => exact bounded_empty ""

theorem Bounded.changes (h : scope.Bounded) (cs : List Change) : (scope.changes cs).Bounded := by
  induction cs generalizing scope with
  | nil => exact h
  | cons c cs ih => exact ih (h.change c)

/-- Whatever is done to an empty scope, its variables have their slots. One more declaration either
fails and changes nothing, or gives the variable the count of its kind for its index and makes this
count, and no other, larger by one. -/
theorem changes_empty_dense (className : String) (cs : List Change) :
    ((empty className).changes cs).Dense ∧
      ∀ (name type : String) (kind : VarKind),
        let scope := (empty className).changes cs
        (∃ e, scope.define name type kind = (.error e, scope)) ∨
          ∃ after, scope.define name type kind = (.ok (scope.countOf kind), after) ∧
            scope.countOf kind < 65535 ∧
            ∀ kind', after.countOf kind' =
              scope.countOf kind' + if kind = kind' then 1 else 0 := by
  obtain ⟨declared, hlists, hcounts⟩ := (bounded_empty className).changes cs
  exact ⟨hlists.dense hcounts, define_counts _⟩

end Jack.Scope
