import Jack.Vm.Generator
import Jack.Proofs.Scope
import Jack.Proofs.Vm.StmtRun

/-!
Scopes of a generator. What one declaration keeps, all declarations of a class or of a subroutine
keep; so the scope of a method has the current object, and nothing else, for its first argument.
-/

namespace Jack.Generator

/-! ### Declarations -/

/-- The property holds of what is left, which an error has with it. -/
def Leaves {ε α : Type} (left : ε → α) (P : α → Prop) : Except ε α → Prop
  | .ok a => P a
  | .error e => P (left e)

namespace Leaves

variable {ε α : Type} {left : ε → α} {P : α → Prop} {x : Except ε α}

theorem of_ok {a : α} (h : Leaves left P x) (hx : x = .ok a) : P a := by rwa [hx] at h

theorem of_error {e : ε} (h : Leaves left P x) (hx : x = .error e) : P (left e) := by rwa [hx] at h

theorem bind {f : α → Except ε α} (hx : Leaves left P x) (hf : ∀ a, P a → Leaves left P (f a)) :
    Leaves left P (x >>= f) := by
  cases x with
  | error e => exact hx
  | ok a => exact hf a hx

end Leaves

section

variable {P : Scope → Prop} (hdefine : ∀ scope name type kind, P scope →
  P (Scope.define scope name type kind).2) {scope : Scope}

include hdefine

theorem declare_leaves (type : String) (kind : VarKind) (names : List Ident) (h : P scope) :
    Leaves Prod.snd P (declare type kind names scope) := by
  induction names generalizing scope with
  | nil => exact h
  | cons name names ih =>
    have hafter := hdefine scope name.name type kind h
    rw [declare]
    split
    next heq =>
      rw [heq] at hafter
      exact ih hafter
    next heq =>
      rw [heq] at hafter
      exact hafter

theorem declareClassVars_leaves (decs : List ClassVarDec) (h : P scope) :
    Leaves Prod.snd P (declareClassVars decs scope) := by
  induction decs generalizing scope with
  | nil => exact h
  | cons dec decs ih =>
    have hnames := declare_leaves hdefine dec.type.name dec.kind.varKind dec.names.toList h
    exact hnames.bind fun _ => ih

theorem declareParams_leaves (params : List Param) (h : P scope) :
    Leaves Prod.snd P (declareParams params scope) := by
  induction params generalizing scope with
  | nil => exact h
  | cons p params ih =>
    have hname := declare_leaves hdefine p.type.name .argument [p.name] h
    exact hname.bind fun _ => ih

theorem declareVars_leaves (decs : List VarDec) (h : P scope) :
    Leaves Prod.snd P (declareVars decs scope) := by
  induction decs generalizing scope with
  | nil => exact h
  | cons dec decs ih =>
    have hnames := declare_leaves hdefine dec.type.name .localVar dec.names.toList h
    exact hnames.bind fun _ => ih

theorem declareThis_leaves (sub : Subroutine) (h : P scope) :
    Leaves Prod.snd P (declareThis sub scope) := by
  have hafter := hdefine scope "this" scope.className .argument h
  rw [declareThis]
  split
  · split
    next heq =>
      rw [heq] at hafter
      exact hafter
    next heq =>
      rw [heq] at hafter
      exact hafter
  · exact h

theorem openScope_leaves (sub : Subroutine) (h : P scope.startSubroutine) :
    Leaves Prod.snd P (openScope sub scope) := by
  refine (declareThis_leaves hdefine sub h).bind fun _ hthis => ?_
  exact (declareParams_leaves hdefine _ hthis).bind fun _ => declareVars_leaves hdefine _

end

/-! ### The first argument of a method -/

/-- There is a first argument, and only `this` means it. -/
def FirstIsThis (scope : Scope) : Prop :=
  0 < scope.countOf .argument ∧ ∀ name v, scope.lookup name = some v → v.kind = .argument →
    v.index = 0 → name = "this"

theorem FirstIsThis.insert {scope : Scope} {name type : String} {kind : VarKind}
    (h : FirstIsThis scope) :
    FirstIsThis (scope.insert ⟨name, type, kind, scope.countOf kind⟩) := by
  constructor
  · rw [Scope.countOf_insert]
    exact Nat.lt_of_lt_of_le h.1 (Nat.le_add_right ..)
  · intro name' v hv hargument hzero
    obtain ⟨rfl, rfl⟩ | hv := Scope.lookup_insert_eq_some hv
    · obtain rfl : kind = .argument := hargument
      exact absurd hzero (Nat.ne_of_gt h.1)
    · exact h.2 name' v hv hargument hzero

theorem firstIsThis_of_declareThis {sub : Subroutine} {scope scope' : Scope}
    (h : declareThis sub scope.startSubroutine = .ok scope') (hmethod : sub.kind = .method)
    (hscope : scope.Reachable) : FirstIsThis scope' := by
  have hclass (name : String) (v : Variable) (hv : scope.startSubroutine.lookup name = some v) :
      v.kind.level = .classLevel := by
    simp only [Scope.lookup, Scope.startSubroutine, Std.HashMap.getElem?_empty] at hv
    exact hscope.level_classVars hv
  rw [declareThis, hmethod] at h
  obtain ⟨e, -, heq⟩ | ⟨-, heq⟩ :=
    scope.startSubroutine.define_eq "this" scope.startSubroutine.className .argument
  · simp [heq] at h
  · simp only [heq, Except.ok.injEq] at h
    subst h
    refine ⟨by simp [Scope.countOf_insert], fun name v hv hargument _ => ?_⟩
    obtain ⟨rfl, -⟩ | hv := Scope.lookup_insert_eq_some hv
    · rfl
    · have hlevel := hclass name v hv
      simp [hargument, VarKind.level] at hlevel

theorem openScope_fixesThis {sub : Subroutine} {scope scope' : Scope}
    (h : openScope sub scope = .ok scope') (hscope : scope.Reachable) :
    Context.FixesThis ⟨scope', sub.kind⟩ := by
  intro hmethod
  obtain ⟨scope₁, hthis, hrest⟩ := bind_eq_ok_iff.1 h
  have hfirst := firstIsThis_of_declareThis hthis hmethod hscope
  have hdefine (scope : Scope) (name type : String) (kind : VarKind) (h : FirstIsThis scope) :
      FirstIsThis (scope.define name type kind).2 := Scope.define_keeps h h.insert
  have hparams := declareParams_leaves hdefine (sub.params.elim [] Separated.toList) hfirst
  have hleaves := hparams.bind fun _ => declareVars_leaves hdefine sub.body.vars
  exact (hleaves.of_ok hrest).2

end Jack.Generator
