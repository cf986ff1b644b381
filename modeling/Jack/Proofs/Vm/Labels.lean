import Jack.Proofs.Vm.Code
import Jack.Proofs.Vm.Machine

/-!
Places in the code of a subroutine, and jumps between them. The labels of statements are numbered
apart, so a jump in the code of a subroutine gets to the one place that its label marks.
-/

namespace Jack

/-! ### Places -/

/-- The block stands at the place `pc` in the code. -/
def StandsAt (code : List Instr) (pc : Nat) (block : List Instr) : Prop :=
  ∃ front back, code = front ++ block ++ back ∧ front.length = pc

namespace StandsAt

variable {code block block₁ block₂ : List Instr} {pc : Nat} {i : Instr}

theorem left (h : StandsAt code pc (block₁ ++ block₂)) : StandsAt code pc block₁ := by
  obtain ⟨front, back, rfl, rfl⟩ := h
  exact ⟨front, block₂ ++ back, by simp, rfl⟩

theorem right (h : StandsAt code pc (block₁ ++ block₂)) :
    StandsAt code (pc + block₁.length) block₂ := by
  obtain ⟨front, back, rfl, rfl⟩ := h
  exact ⟨front ++ block₁, back, by simp, by simp⟩

theorem head (h : StandsAt code pc (i :: block)) : code[pc]? = some i := by
  obtain ⟨front, back, rfl, rfl⟩ := h
  simp

theorem tail (h : StandsAt code pc (i :: block)) : StandsAt code (pc + 1) block := by
  obtain ⟨front, back, rfl, rfl⟩ := h
  exact ⟨front ++ [i], back, by simp, by simp⟩

theorem reaches {calls : Calls} {m m' : Machine} (h : StandsAt code pc block)
    (hrun : Machine.runBlock calls block m = some m') :
    Reaches calls code ⟨pc, m⟩ ⟨pc + block.length, m'⟩ := by
  obtain ⟨front, back, rfl, rfl⟩ := h
  exact reaches_of_runBlock hrun front back

end StandsAt

/-! ### Jumps -/

def Instr.label? : Instr → Option Label
  | .label l => some l
  | _ => none

namespace Instr

@[simp] theorem label?_push (s : Segment) (i : Nat) : (push s i).label? = none := rfl
@[simp] theorem label?_pop (s : Segment) (i : Nat) : (pop s i).label? = none := rfl
@[simp] theorem label?_op (o : ArithOp) : (op o).label? = none := rfl
@[simp] theorem label?_label (l : Label) : (label l).label? = some l := rfl
@[simp] theorem label?_goto (l : Label) : (goto l).label? = none := rfl
@[simp] theorem label?_ifGoto (l : Label) : (ifGoto l).label? = none := rfl
@[simp] theorem label?_function (name : String) (n : Nat) : (function name n).label? = none := rfl
@[simp] theorem label?_call (name : String) (n : Nat) : (call name n).label? = none := rfl
@[simp] theorem label?_ret : ret.label? = none := rfl

end Instr

/-- The labels in a piece of code, in order. -/
def labelsOf (code : List Instr) : List Label := code.filterMap Instr.label?

@[simp] theorem labelsOf_append (block₁ block₂ : List Instr) :
    labelsOf (block₁ ++ block₂) = labelsOf block₁ ++ labelsOf block₂ := List.filterMap_append ..

@[simp] theorem labelsOf_nil : labelsOf [] = [] := rfl

@[simp] theorem labelsOf_cons (i : Instr) (block : List Instr) :
    labelsOf (i :: block) = i.label?.toList ++ labelsOf block := by
  cases h : i.label? <;> simp [labelsOf, h]

theorem labelIndex?_of_standsAt {code block : List Instr} {pc : Nat} {l : Label}
    (hlabels : (labelsOf code).Nodup) (h : StandsAt code pc (.label l :: block)) :
    labelIndex? code l = some pc := by
  obtain ⟨front, back, rfl, rfl⟩ := h
  have hfront : .label l ∉ front := by
    intro hmem
    have hl : l ∈ labelsOf front := List.mem_filterMap.2 ⟨_, hmem, rfl⟩
    rw [List.append_assoc, labelsOf_append, List.nodup_append] at hlabels
    exact hlabels.2.2 l hl l (by simp [labelsOf, Instr.label?]) rfl
  have hnone : front.findIdx? (· = .label l) = none := by
    rw [List.findIdx?_eq_none_iff]
    intro i hi
    simpa using fun heq : i = .label l => hfront (heq ▸ hi)
  simp [labelIndex?, List.findIdx?_append, hnone, List.findIdx?_cons]

section

variable {calls : Calls} {code block : List Instr} {pc target : Nat} {l : Label} {m : Machine}

theorem reaches_goto (h : code[pc]? = some (.goto l)) (hl : labelIndex? code l = some target) :
    Reaches calls code ⟨pc, m⟩ ⟨target, m⟩ :=
  .single (by simp [step, h, hl])

theorem reaches_ifGoto_of_ne_zero {value : Word} {stack : List Word}
    (h : code[pc]? = some (.ifGoto l)) (hl : labelIndex? code l = some target)
    (hvalue : value ≠ 0) :
    Reaches calls code ⟨pc, { m with stack := value :: stack }⟩ ⟨target, { m with stack }⟩ :=
  .single (by simp only [step, h, hl, if_neg hvalue, Option.map_some])

theorem reaches_ifGoto_of_zero {stack : List Word} (h : code[pc]? = some (.ifGoto l)) :
    Reaches calls code ⟨pc, { m with stack := 0 :: stack }⟩ ⟨pc + 1, { m with stack }⟩ :=
  .single (by simp [step, h])

theorem reaches_label (h : code[pc]? = some (.label l)) :
    Reaches calls code ⟨pc, m⟩ ⟨pc + 1, m⟩ :=
  .single (by simp [step, h, Machine.exec?])

end

/-- Where an instruction may jump. -/
def Instr.target? : Instr → Option Label
  | .goto l => some l
  | .ifGoto l => some l
  | _ => none

namespace Instr

@[simp] theorem target?_push (s : Segment) (i : Nat) : (push s i).target? = none := rfl
@[simp] theorem target?_pop (s : Segment) (i : Nat) : (pop s i).target? = none := rfl
@[simp] theorem target?_op (o : ArithOp) : (op o).target? = none := rfl
@[simp] theorem target?_label (l : Label) : (label l).target? = none := rfl
@[simp] theorem target?_goto (l : Label) : (goto l).target? = some l := rfl
@[simp] theorem target?_ifGoto (l : Label) : (ifGoto l).target? = some l := rfl
@[simp] theorem target?_function (name : String) (n : Nat) : (function name n).target? = none := rfl
@[simp] theorem target?_call (name : String) (n : Nat) : (call name n).target? = none := rfl
@[simp] theorem target?_ret : ret.target? = none := rfl

end Instr

/-- The labels that a piece of code jumps to, in order. -/
def targetsOf (code : List Instr) : List Label := code.filterMap Instr.target?

@[simp] theorem targetsOf_append (block₁ block₂ : List Instr) :
    targetsOf (block₁ ++ block₂) = targetsOf block₁ ++ targetsOf block₂ := List.filterMap_append ..

@[simp] theorem targetsOf_nil : targetsOf [] = [] := rfl

@[simp] theorem targetsOf_cons (i : Instr) (block : List Instr) :
    targetsOf (i :: block) = i.target?.toList ++ targetsOf block := by
  cases h : i.target? <;> simp [targetsOf, h]

/-! ### Straight code -/

/-- Whether an instruction always goes on with the next one and marks no place. -/
def Instr.isStraight : Instr → Bool
  | .push _ _ => true
  | .pop _ _ => true
  | .op _ => true
  | .call _ _ => true
  | _ => false

namespace Instr

variable {i : Instr}

theorem label?_eq_none (h : i.isStraight = true) : i.label? = none := by
  cases i <;> first | rfl | simp [isStraight] at h

theorem target?_eq_none (h : i.isStraight = true) : i.target? = none := by
  cases i <;> first | rfl | simp [isStraight] at h

end Instr

theorem labelsOf_eq_nil {block : List Instr} (h : block.all Instr.isStraight = true) :
    labelsOf block = [] :=
  List.filterMap_eq_nil_iff.2 fun i hi => Instr.label?_eq_none (List.all_eq_true.1 h i hi)

theorem targetsOf_eq_nil {block : List Instr} (h : block.all Instr.isStraight = true) :
    targetsOf block = [] :=
  List.filterMap_eq_nil_iff.2 fun i hi => Instr.target?_eq_none (List.all_eq_true.1 h i hi)

namespace Code

variable {ctx : Context}

@[simp] theorem push_straight (name : Ident) : (push ctx name).isStraight = true := by
  cases h : ctx.scope.lookup name.name <;> simp [push, h, Variable.push, Instr.isStraight]

@[simp] theorem pop_straight (name : Ident) : (pop ctx name).isStraight = true := by
  cases h : ctx.scope.lookup name.name <;> simp [pop, h, Variable.pop, Instr.isStraight]

@[simp] theorem this_straight : ctx.this.isStraight = true := by
  unfold Context.this
  split <;> rfl

@[simp] theorem binaryOp_straight (op : BinaryOp) : op.instr.isStraight = true := by
  cases op <;> rfl

@[simp] theorem unaryOp_straight (op : UnaryOp) : op.instr.isStraight = true := by
  cases op <;> rfl

theorem string_straight (value : String) : (string value).all Instr.isStraight = true := by
  have hcharacters (cs : List Char) : (characters cs).all Instr.isStraight = true := by
    induction cs with
    | nil => rfl
    | cons c cs ih => exact ih
  exact hcharacters value.toList

theorem named_straight (value : NamedConstant) :
    (named ctx value).all Instr.isStraight = true := by
  cases value with
  | this => simp [named]
  | _ => rfl

theorem receiver_straight (recv : Option (Ident × Span)) :
    (receiver ctx recv).2.2.all Instr.isStraight = true := by
  cases recv with
  | none => simp [receiver]
  | some object =>
    cases h : ctx.scope.lookup object.1.name <;>
      simp [receiver, h, Variable.push, Instr.isStraight]

mutual

theorem expr_straight : ∀ e : Expr, (expr ctx e).all Instr.isStraight = true
  | .mk head tail => by rw [expr, List.all_append, term_straight head, opTerms_straight tail]; rfl

theorem opTerms_straight : ∀ xs : OpTerms, (opTerms ctx xs).all Instr.isStraight = true
  | .nil => rfl
  | .cons op _ t rest => by
    rw [opTerms, List.all_append, List.all_cons, term_straight t, opTerms_straight rest,
      binaryOp_straight]
    rfl

theorem term_straight : ∀ t : Term, (term ctx t).all Instr.isStraight = true
  | .integer _ _ => rfl
  | .string value _ => string_straight value
  | .named value _ => named_straight value
  | .paren _ e _ => expr_straight e
  | .unary op _ t => by
    rw [term, List.all_append, term_straight t, List.all_cons, unaryOp_straight]
    rfl
  | .var name => by simp [term]
  | .element name index => by
    rw [term, List.all_cons, push_straight, List.all_append, offset_straight index]
    rfl
  | .call c => call_straight c

theorem offset_straight : ∀ index : Index, (offset ctx index).all Instr.isStraight = true
  | .mk _ e _ => by rw [offset, List.all_append, expr_straight e]; rfl

theorem call_straight : ∀ c : Call, (call ctx c).all Instr.isStraight = true
  | .mk recv name _ as _ => by
    rw [call, List.all_append, List.all_append, receiver_straight, args_straight as]
    rfl

theorem args_straight : ∀ as : Args, (args ctx as).all Instr.isStraight = true
  | .none => rfl
  | .some head tail => by
    rw [args, List.all_append, expr_straight head, moreArgs_straight tail]
    rfl

theorem moreArgs_straight : ∀ as : MoreArgs, (moreArgs ctx as).all Instr.isStraight = true
  | .nil => rfl
  | .cons _ e rest => by
    rw [moreArgs, List.all_append, expr_straight e, moreArgs_straight rest]
    rfl

end

@[simp] theorem labelsOf_expr (e : Expr) : labelsOf (expr ctx e) = [] :=
  labelsOf_eq_nil (expr_straight e)

@[simp] theorem labelsOf_offset (index : Index) : labelsOf (offset ctx index) = [] :=
  labelsOf_eq_nil (offset_straight index)

@[simp] theorem labelsOf_call (c : Call) : labelsOf (call ctx c) = [] :=
  labelsOf_eq_nil (call_straight c)

@[simp] theorem label?_push (name : Ident) : (push ctx name).label? = none :=
  Instr.label?_eq_none (push_straight name)

@[simp] theorem label?_pop (name : Ident) : (pop ctx name).label? = none :=
  Instr.label?_eq_none (pop_straight name)

/-! ### Labels of statements -/

/-- The labels are distinct, and their numbers are from `n` on and below `n'`. -/
def Numbered (labels : List Label) (n n' : Nat) : Prop :=
  labels.Nodup ∧ ∀ l ∈ labels, n ≤ l.number ∧ l.number < n'

theorem Numbered.append {labels₁ labels₂ : List Label} {n₁ n₂ n₃ : Nat}
    (h₁ : Numbered labels₁ n₁ n₂) (h₂ : Numbered labels₂ n₂ n₃) (h₁₂ : n₁ ≤ n₂) (h₂₃ : n₂ ≤ n₃) :
    Numbered (labels₁ ++ labels₂) n₁ n₃ := by
  refine ⟨List.nodup_append.2 ⟨h₁.1, h₂.1, ?_⟩, ?_⟩
  · rintro l hl l' hl' rfl
    have hlt := (h₁.2 l hl).2
    have hge := (h₂.2 l hl').1
    omega
  · intro l hl
    rcases List.mem_append.1 hl with hl | hl
    · have h := h₁.2 l hl
      omega
    · have h := h₂.2 l hl
      omega

theorem Numbered.nil {n n' : Nat} : Numbered [] n n' := ⟨.nil, by simp⟩

theorem Numbered.perm {labels labels' : List Label} {n n' : Nat} (h : Numbered labels n n')
    (hperm : labels.Perm labels') : Numbered labels' n n' :=
  ⟨hperm.nodup h.1, fun l hl => h.2 l (hperm.mem_iff.2 hl)⟩

/-- Labels of one statement, in its own number, and those of the statements in it. -/
theorem Numbered.own (roles : List LabelRole) {inner : List Label} {n n' : Nat}
    (hroles : roles.Nodup) (hinner : Numbered inner (n + 1) n') (hle : n + 1 ≤ n') :
    Numbered (roles.map (⟨·, n⟩) ++ inner) n n' := by
  refine Numbered.append ⟨?_, ?_⟩ hinner (by omega) hle
  · exact List.Pairwise.map _ (fun a b hne heq => hne (by simpa using heq)) hroles
  · simp

section

variable (keyword left right : Span) (condition : Expr) (yes body : Block) (no : Otherwise) (n : Nat)

theorem labelsOf_branch : labelsOf (stmt ctx n (.branch keyword left condition right yes no)) =
    labelsOf (otherwise ctx (n + 1) no) ++ ⟨.holds, n⟩ ::
      (labelsOf (block ctx (n + 1 + no.labelCount) yes) ++ [⟨.branchEnd, n⟩]) := by
  simp [stmt]

theorem labelsOf_loop : labelsOf (stmt ctx n (.loop keyword left condition right body)) =
    ⟨.condition, n⟩ :: ⟨.holds, n⟩ :: (labelsOf (block ctx (n + 1) body) ++ [⟨.loopEnd, n⟩]) := by
  simp [stmt]

end

mutual

theorem stmt_numbered : ∀ (s : Stmt) (n : Nat),
    Numbered (labelsOf (stmt ctx n s)) n (n + s.labelCount)
  | .assign _ target none _ value _, n => by simpa [stmt] using .nil
  | .assign _ target (some index) _ value _, n => by simpa [stmt] using .nil
  | .branch _ _ condition _ yes no, n => by
    have hinner := (otherwise_numbered no (n + 1)).append
      (block_numbered yes (n + 1 + no.labelCount)) (by omega) (by omega)
    have hown := Numbered.own [.holds, .branchEnd] (by decide) hinner (by omega)
    have hcount : n + (1 + no.labelCount + yes.labelCount) =
        n + 1 + no.labelCount + yes.labelCount := by omega
    rw [labelsOf_branch, Stmt.labelCount, hcount]
    refine hown.perm ?_
    refine .trans (.cons _ ?_) List.perm_middle.symm
    rw [← List.append_assoc]
    exact (List.perm_append_singleton _ _).symm
  | .loop _ _ condition _ body, n => by
    have hown := Numbered.own [.condition, .holds, .loopEnd] (by decide)
      (block_numbered body (n + 1)) (by omega)
    rw [labelsOf_loop, Stmt.labelCount, ← Nat.add_assoc]
    exact hown.perm (.cons _ (.cons _ (List.perm_append_singleton _ _).symm))
  | .perform _ c _, n => by simpa [stmt] using .nil
  | .finish _ none _, n => by simpa [stmt] using .nil
  | .finish _ (some value) _, n => by simpa [stmt] using .nil

theorem otherwise_numbered : ∀ (no : Otherwise) (n : Nat),
    Numbered (labelsOf (otherwise ctx n no)) n (n + no.labelCount)
  | .none, _ => .nil
  | .some _ b, n => block_numbered b n

theorem block_numbered : ∀ (b : Block) (n : Nat),
    Numbered (labelsOf (block ctx n b)) n (n + b.labelCount)
  | .mk _ body _, n => stmts_numbered body n

theorem stmts_numbered : ∀ (body : Stmts) (n : Nat),
    Numbered (labelsOf (stmts ctx n body)) n (n + body.labelCount)
  | .nil, _ => .nil
  | .cons s rest, n => by
    have hrest := stmts_numbered rest (n + s.labelCount)
    have h := (stmt_numbered s n).append hrest (by omega) (by omega)
    simpa [stmts, Stmts.labelCount, Nat.add_assoc] using h

end

end Code

end Jack
