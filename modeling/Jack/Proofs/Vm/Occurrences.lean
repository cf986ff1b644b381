import Jack.Proofs.Vm.Slots

/-!
What the names in a subroutine become in its code. The occurrences of variables and the calls of a
subroutine are listed in the order in which code is made for them. Each is shown in the code by the
slot that the declarations give it, in this order, and the code uses nothing else.
-/

namespace Jack

/-! ### Occurrences -/

/-- A use of a variable, of the current object or of another subroutine. -/
inductive Occurrence where
  /-- A variable term, or the base of an index. -/
  | read (name : String)
  /-- The target of an assignment. -/
  | written (name : String)
  /-- The current object, which a call without a receiver does not name. -/
  | current
  | receiver (name : String)
  | call (receiver : Option String) (name : String) (args : Nat)
  /-- A subroutine of the library that stands for an operator or a constant. -/
  | library (name : String) (args : Nat)
deriving DecidableEq, Repr

def BinaryOp.occurrences : BinaryOp → List Occurrence
  | mul => [.library "Math.multiply" 2]
  | div => [.library "Math.divide" 2]
  | _ => []

def NamedConstant.occurrences : NamedConstant → List Occurrence
  | .this => [.current]
  | _ => []

/-- What a call does first. -/
def receiverOccurrence : Option (Ident × Span) → Occurrence
  | none => .current
  | some (name, _) => .receiver name.name

mutual

def Expr.occurrences : Expr → List Occurrence
  | .mk head tail => head.occurrences ++ tail.occurrences

def OpTerms.occurrences : OpTerms → List Occurrence
  | .nil => []
  | .cons op _ t rest => t.occurrences ++ (op.occurrences ++ rest.occurrences)

def Term.occurrences : Term → List Occurrence
  | .integer _ _ => []
  | .string value _ =>
    .library "String.new" 1 :: value.toList.map fun _ => .library "String.appendChar" 2
  | .named value _ => value.occurrences
  | .paren _ e _ => e.occurrences
  | .unary _ _ t => t.occurrences
  | .var name => [.read name.name]
  | .element name index => .read name.name :: index.occurrences
  | .call c => c.occurrences

def Index.occurrences : Index → List Occurrence
  | .mk _ e _ => e.occurrences

def Call.occurrences : Call → List Occurrence
  | .mk recv name _ as _ => receiverOccurrence recv :: (as.occurrences ++
      [.call (recv.map fun object => object.1.name) name.name as.length])

def Args.occurrences : Args → List Occurrence
  | .none => []
  | .some head tail => head.occurrences ++ tail.occurrences

def MoreArgs.occurrences : MoreArgs → List Occurrence
  | .nil => []
  | .cons _ e rest => e.occurrences ++ rest.occurrences

end

mutual

/-- An assignment ends with its target, unless this has an index. What is done otherwise comes first
in a branch. -/
def Stmt.occurrences : Stmt → List Occurrence
  | .assign _ target none _ value _ => value.occurrences ++ [.written target.name]
  | .assign _ target (some index) _ value _ =>
    .read target.name :: (index.occurrences ++ value.occurrences)
  | .branch _ _ condition _ yes no =>
    condition.occurrences ++ (no.occurrences ++ yes.occurrences)
  | .loop _ _ condition _ body => condition.occurrences ++ body.occurrences
  | .perform _ c _ => c.occurrences
  | .finish _ none _ => []
  | .finish _ (some value) _ => value.occurrences

def Otherwise.occurrences : Otherwise → List Occurrence
  | .none => []
  | .some _ b => b.occurrences

def Block.occurrences : Block → List Occurrence
  | .mk _ body _ => body.occurrences

def Stmts.occurrences : Stmts → List Occurrence
  | .nil => []
  | .cons s rest => s.occurrences ++ rest.occurrences

end

/-- What a subroutine does before its first statement. -/
def SubroutineKind.occurrences : SubroutineKind → List Occurrence
  | constructor => [.library "Memory.alloc" 1]
  | method => [.current]
  | function => []

def Subroutine.occurrences (sub : Subroutine) : List Occurrence :=
  sub.kind.occurrences ++ sub.body.statements.occurrences

/-! ### Occurrences in code -/

/-- The cell of a variable that an instruction reads or writes. -/
def Instr.cell? : Instr → Option (Segment × Nat)
  | .push segment k | .pop segment k =>
    match segment with
    | .static | .this | .localVar | .argument => some (segment, k)
    | _ => none
  | _ => none

/-- Whether it is for a variable or another subroutine. -/
def Instr.isUse : Instr → Bool
  | .call _ _ => true
  | i => i.cell?.isSome

section

variable (decl : ClassDecl) (sub : Subroutine)

/-- The instructions for an occurrence. -/
inductive Shows : Occurrence → List Instr → Prop
  | read {name type : String} {segment : Segment} {k : Nat}
      (h : Slot decl sub name type segment k) : Shows (.read name) [.push segment k]
  | written {name type : String} {segment : Segment} {k : Nat}
      (h : Slot decl sub name type segment k) : Shows (.written name) [.pop segment k]
  | argument (h : sub.kind = .method) : Shows .current [.push .argument 0]
  | pointer (h : sub.kind ≠ .method) : Shows .current [.push .pointer 0]
  | object {name type : String} {segment : Segment} {k : Nat}
      (h : Slot decl sub name type segment k) : Shows (.receiver name) [.push segment k]
  | noObject {name : String} (h : ∀ type segment k, ¬ Slot decl sub name type segment k) :
      Shows (.receiver name) []
  | ofCurrent {name : String} {n : Nat} :
      Shows (.call none name n) [.call (qualifiedName decl.name.name name) (n + 1)]
  | ofObject {object type name : String} {segment : Segment} {k n : Nat}
      (h : Slot decl sub object type segment k) :
      Shows (.call (some object) name n) [.call (qualifiedName type name) (n + 1)]
  | ofClass {object name : String} {n : Nat}
      (h : ∀ type segment k, ¬ Slot decl sub object type segment k) :
      Shows (.call (some object) name n) [.call (qualifiedName object name) n]
  | library {name : String} {n : Nat} : Shows (.library name n) [.call name n]

/-- The code shows the occurrences in turn, and what stands between them uses nothing. -/
inductive Traces : List Occurrence → List Instr → Prop
  | nil : Traces [] []
  | other {i : Instr} {os : List Occurrence} {code : List Instr} (h : i.isUse = false)
      (rest : Traces os code) : Traces os (i :: code)
  | next {o : Occurrence} {piece : List Instr} {os : List Occurrence} {code : List Instr}
      (h : Shows decl sub o piece) (rest : Traces os code) : Traces (o :: os) (piece ++ code)

/-- The number of cells that the variables of a subroutine have in a segment. -/
def cellCount : Segment → Nat
  | .static => (decl.variables .static).length
  | .this => (decl.variables .field).length
  | .localVar => sub.locals.length
  | .argument => sub.parameters.length + if sub.kind = .method then 1 else 0
  | _ => 0

end

variable {decl : ClassDecl} {sub : Subroutine}

namespace Traces

variable {os os' : List Occurrence} {code code' : List Instr}

theorem append (h : Traces decl sub os code) (h' : Traces decl sub os' code') :
    Traces decl sub (os ++ os') (code ++ code') := by
  induction h with
  | nil => exact h'
  | other hi _ ih => exact .other hi ih
  | next ho _ ih =>
    rw [List.append_assoc]
    exact .next ho ih

theorem andThen (h : Traces decl sub os code) (h' : Traces decl sub [] code') :
    Traces decl sub os (code ++ code') := by
  have happend := h.append h'
  rwa [List.append_nil] at happend

theorem single {o : Occurrence} {piece : List Instr} (h : Shows decl sub o piece) :
    Traces decl sub [o] piece := by
  have hnext := Traces.next h .nil
  rwa [List.append_nil] at hnext

/-- What the code uses, an occurrence shows. -/
theorem exists_shows (h : Traces decl sub os code) {i : Instr} (hi : i ∈ code)
    (huse : i.isUse = true) : ∃ o ∈ os, ∃ piece, Shows decl sub o piece ∧ i ∈ piece := by
  induction h with
  | nil => simp at hi
  | other hnot _ ih =>
    rcases List.mem_cons.1 hi with rfl | hi
    · simp [huse] at hnot
    · exact ih hi
  | next ho _ ih =>
    rcases List.mem_append.1 hi with hi | hi
    · exact ⟨_, List.mem_cons_self, _, ho, hi⟩
    · obtain ⟨o, hmem, hshows⟩ := ih hi
      exact ⟨o, List.mem_cons_of_mem _ hmem, hshows⟩

end Traces

/-! ### Slots of a subroutine -/

namespace Slot

variable {name name' type type' : String} {segment segment' : Segment} {k k' : Nat}

theorem index_lt (h : Slot decl sub name type segment k) : k < cellCount decl sub segment := by
  cases h with
  | localVar h | field _ _ h | static _ _ h => exact (List.getElem?_eq_some_iff.1 h).1
  | parameter _ h =>
    have hlt := (List.getElem?_eq_some_iff.1 h).1
    simp only [cellCount]
    split <;> omega

/-- A cell has one name. -/
theorem name_eq (h : Slot decl sub name type segment k)
    (h' : Slot decl sub name' type' segment k') (hk : k = k') : name = name' := by
  have heq {names : List (String × String)} {i : Nat} (h : names[i]? = some (name, type))
      (h' : names[i]? = some (name', type')) : name = name' :=
    (Prod.mk.inj (Option.some.inj (h.symm.trans h'))).1
  cases h with
  | localVar h =>
    cases h' with
    | localVar h' =>
      subst hk
      exact heq h h'
  | @parameter i _ h =>
    cases h' with
    | @parameter i' _ h' =>
      obtain rfl : i = i' := by split at hk <;> omega
      exact heq h h'
  | field _ _ h =>
    cases h' with
    | field _ _ h' =>
      subst hk
      exact heq h h'
  | static _ _ h =>
    cases h' with
    | static _ _ h' =>
      subst hk
      exact heq h h'

/-- A name has one cell. -/
theorem unique {scope : Scope} (hlists : scope.Lists (declaredIn decl sub))
    (h : Slot decl sub name type segment k) (h' : Slot decl sub name type' segment' k') :
    type = type' ∧ segment = segment' ∧ k = k' := by
  obtain ⟨kind, rfl, hhas, hclass⟩ := h.exists_has
  obtain ⟨kind', rfl, hhas', hclass'⟩ := h'.exists_has
  have hlevel : kind.level = kind'.level := by
    have hiff := hclass.trans hclass'.symm
    cases hk : kind.level <;> cases hk' : kind'.level <;> simp_all
  have heq := hlists.eq_of_has hhas hhas' hlevel rfl
  simp only [Variable.mk.injEq, true_and] at heq
  exact ⟨heq.1, congrArg _ heq.2.1, heq.2.2⟩

/-- The first argument of a method is none of its variables. -/
theorem ne_zero_of_method (hmethod : sub.kind = .method)
    (h : Slot decl sub name type .argument k) : k ≠ 0 := by
  cases h with
  | parameter _ h => simp [hmethod]

end Slot

theorem eq_of_cell? {i : Instr} {segment segment' : Segment} {k k' : Nat}
    (hi : i = .push segment k ∨ i = .pop segment k) (h : i.cell? = some (segment', k')) :
    segment = segment' ∧ k = k' := by
  rcases hi with rfl | rfl
  · cases segment <;> simp_all [Instr.cell?]
  · cases segment <;> simp_all [Instr.cell?]

/-- The cell that an occurrence shows is one of those for the variables. -/
theorem Shows.index_lt {o : Occurrence} {piece : List Instr} (h : Shows decl sub o piece)
    {i : Instr} (hi : i ∈ piece) {segment : Segment} {k : Nat}
    (hcell : i.cell? = some (segment, k)) : k < cellCount decl sub segment := by
  cases h with
  | read h | object h =>
    obtain ⟨rfl, rfl⟩ := eq_of_cell? (.inl (List.mem_singleton.1 hi)) hcell
    exact h.index_lt
  | written h =>
    obtain ⟨rfl, rfl⟩ := eq_of_cell? (.inr (List.mem_singleton.1 hi)) hcell
    exact h.index_lt
  | argument hmethod =>
    obtain ⟨rfl, rfl⟩ := eq_of_cell? (.inl (List.mem_singleton.1 hi)) hcell
    simp [cellCount, hmethod]
  | noObject => simp at hi
  | pointer | ofCurrent | ofObject | ofClass | library =>
    obtain rfl := List.mem_singleton.1 hi
    simp [Instr.cell?] at hcell

/-! ### Code with its occurrences -/

namespace Context

variable {ctx : Context} {out out' : Output}

theorem For.shows_this (hctx : ctx.For decl sub) : Shows decl sub .current [ctx.this] := by
  by_cases hmethod : sub.kind = .method
  · simpa [this, hctx.kind, hmethod] using Shows.argument hmethod
  · have hthis : ctx.this = .push .pointer 0 := by
      rw [this, hctx.kind]
      split
      · contradiction
      · rfl
    rw [hthis]
    exact .pointer hmethod

theorem For.slot_of_resolve (hctx : ctx.For decl sub) {name : Ident} {v : Variable}
    (h : ctx.resolve name out = .ok v) (hname : name.name ≠ "this") :
    Slot decl sub name.name v.type v.kind.segment v.index :=
  slot_of_lookup hctx.lists hname (resolve_eq_ok h)

theorem For.shows_push (hctx : ctx.For decl sub) {name : Ident} {v : Variable}
    (h : ctx.resolve name out = .ok v) (hname : name.name ≠ "this") :
    Shows decl sub (.read name.name) [Code.push ctx name] := by
  rw [push_of_resolve h]
  exact .read (hctx.slot_of_resolve h hname)

theorem For.shows_pop (hctx : ctx.For decl sub) {name : Ident} {v : Variable}
    (h : ctx.resolve name out = .ok v) (hname : name.name ≠ "this") :
    Shows decl sub (.written name.name) [Code.pop ctx name] := by
  rw [pop_of_resolve h]
  exact .written (hctx.slot_of_resolve h hname)

/-- A receiver that is a variable is pushed, and the call is of its type; another one names the
class. -/
theorem For.shows_call (hctx : ctx.For decl sub) (recv : Option (Ident × Span)) (name : String)
    (n : Nat) (hname : ∀ object ∈ recv, object.1.name ≠ "this") :
    Shows decl sub (receiverOccurrence recv) (Code.receiver ctx recv).2.2 ∧
      Shows decl sub (.call (recv.map fun object => object.1.name) name n)
        [.call (qualifiedName (Code.receiver ctx recv).1 name)
          (n + (Code.receiver ctx recv).2.1)] := by
  cases recv with
  | none =>
    refine ⟨hctx.shows_this, ?_⟩
    simp only [Code.receiver, hctx.className]
    exact .ofCurrent
  | some object =>
    have hname := hname object rfl
    cases hv : ctx.scope.lookup object.1.name with
    | none =>
      have hnone (type : String) (segment : Segment) (k : Nat) :
          ¬ Slot decl sub object.1.name type segment k := by
        intro hslot
        obtain ⟨kind, -, hsome⟩ := lookup_of_slot hctx.lists hname hslot
        simp [hv] at hsome
      simp only [Code.receiver, hv]
      exact ⟨.noObject hnone, .ofClass hnone⟩
    | some v =>
      have hslot := slot_of_lookup hctx.lists hname hv
      simp only [Code.receiver, hv]
      exact ⟨.object hslot, .ofObject hslot⟩

theorem traces_binaryOp (op : BinaryOp) : Traces decl sub op.occurrences [op.instr] := by
  cases op with
  | mul | div => exact .single .library
  | _ => exact .other rfl .nil

theorem traces_unaryOp (op : UnaryOp) : Traces decl sub [] [op.instr] := by
  cases op <;> exact .other rfl .nil

theorem traces_string (value : String) (span : Span) :
    Traces decl sub (Term.string value span).occurrences (Code.string value) := by
  have hcharacters (cs : List Char) : Traces decl sub
      (cs.map fun _ => .library "String.appendChar" 2) (Code.characters cs) := by
    induction cs with
    | nil => exact .nil
    | cons c cs ih => exact .other rfl (.next .library ih)
  exact .other rfl (.next .library (hcharacters value.toList))

theorem For.traces_named (hctx : ctx.For decl sub) (value : NamedConstant) :
    Traces decl sub value.occurrences (Code.named ctx value) := by
  cases value with
  | this => exact .single hctx.shows_this
  | true => exact .other rfl (.other rfl .nil)
  | false | null => exact .other rfl .nil

mutual

theorem expr_traces (hctx : ctx.For decl sub) : ∀ (e : Expr) {out out' : Output},
    ctx.expr e out = .ok out' →
    NoThis e.terminals → Traces decl sub e.occurrences (Code.expr ctx e)
  | .mk head tail, out, out', h, hthis => by
    obtain ⟨out₁, hhead, htail⟩ := bind_eq_ok_iff.1 h
    simp only [Expr.terminals, noThis_append] at hthis
    exact (term_traces hctx head hhead hthis.1).append (opTerms_traces hctx tail htail hthis.2)

theorem opTerms_traces (hctx : ctx.For decl sub) : ∀ (xs : OpTerms) {out out' : Output},
    ctx.opTerms xs out = .ok out' →
    NoThis xs.terminals → Traces decl sub xs.occurrences (Code.opTerms ctx xs)
  | .nil, _, _, _, _ => .nil
  | .cons op _ t rest, out, out', h, hthis => by
    obtain ⟨out₁, ht, hrest⟩ := bind_eq_ok_iff.1 h
    simp only [OpTerms.terminals, noThis_symbol, noThis_append] at hthis
    have hop := (traces_binaryOp op).append (opTerms_traces hctx rest hrest hthis.2)
    exact (term_traces hctx t ht hthis.1).append hop

theorem term_traces (hctx : ctx.For decl sub) : ∀ (t : Term) {out out' : Output},
    ctx.term t out = .ok out' →
    NoThis t.terminals → Traces decl sub t.occurrences (Code.term ctx t)
  | .integer _ _, _, _, _, _ => .other rfl .nil
  | .string value span, _, _, _, _ => traces_string value span
  | .named value _, _, _, _, _ => hctx.traces_named value
  | .paren _ e _, out, out', h, hthis => by
    simp only [Term.terminals, noThis_symbol, noThis_append] at hthis
    exact expr_traces hctx e h hthis.1
  | .unary op _ t, out, out', h, hthis => by
    obtain ⟨out₁, ht, -⟩ := bind_eq_ok_iff.1 h
    simp only [Term.terminals, noThis_symbol] at hthis
    exact (term_traces hctx t ht hthis).andThen (traces_unaryOp op)
  | .var name, out, out', h, hthis => by
    obtain ⟨v, hv, -⟩ := bind_eq_ok_iff.1 h
    simp only [Term.terminals, noThis_ident] at hthis
    exact .single (hctx.shows_push hv hthis.1)
  | .element name index, out, out', h, hthis => by
    obtain ⟨v, hv, hrest⟩ := bind_eq_ok_iff.1 h
    obtain ⟨out₁, hindex, -⟩ := bind_eq_ok_iff.1 hrest
    simp only [Term.terminals, noThis_ident] at hthis
    have hoffset := offset_traces hctx index hindex hthis.2
    exact .next (hctx.shows_push hv hthis.1) (hoffset.andThen (.other rfl (.other rfl .nil)))
  | .call c, _, _, h, hthis => call_traces hctx c h hthis

theorem offset_traces (hctx : ctx.For decl sub) : ∀ (index : Index) {out out' : Output},
    ctx.offset index out = .ok out' →
    NoThis index.terminals → Traces decl sub index.occurrences (Code.offset ctx index)
  | .mk _ e _, out, out', h, hthis => by
    obtain ⟨out₁, he, -⟩ := bind_eq_ok_iff.1 h
    simp only [Index.terminals, noThis_symbol, noThis_append] at hthis
    exact (expr_traces hctx e he hthis.1).andThen (.other rfl .nil)

theorem call_traces (hctx : ctx.For decl sub) : ∀ (c : Call) {out out' : Output},
    ctx.call c out = .ok out' →
    NoThis c.terminals → Traces decl sub c.occurrences (Code.call ctx c)
  | .mk recv name _ as _, out, out', h, hthis => by
    simp only [call, receiver_eq] at h
    obtain ⟨out₁, has, -⟩ := bind_eq_ok_iff.1 h
    have hnames : (∀ object ∈ recv, object.1.name ≠ "this") ∧ NoThis as.terminals := by
      cases recv with
      | none => simp_all [Call.terminals]
      | some object => simp_all [Call.terminals]
    obtain ⟨hrecv, hcall⟩ := hctx.shows_call recv name.name as.length hnames.1
    have hargs := (args_traces hctx as has hnames.2).append (.single hcall)
    rw [Code.call, List.append_assoc]
    exact .next hrecv hargs

theorem args_traces (hctx : ctx.For decl sub) : ∀ (as : Args) {out out' : Output},
    ctx.args as out = .ok out' →
    NoThis as.terminals → Traces decl sub as.occurrences (Code.args ctx as)
  | .none, _, _, _, _ => .nil
  | .some head tail, out, out', h, hthis => by
    obtain ⟨out₁, hhead, htail⟩ := bind_eq_ok_iff.1 h
    simp only [Args.terminals, noThis_append] at hthis
    exact (expr_traces hctx head hhead hthis.1).append (moreArgs_traces hctx tail htail hthis.2)

theorem moreArgs_traces (hctx : ctx.For decl sub) : ∀ (as : MoreArgs) {out out' : Output},
    ctx.moreArgs as out = .ok out' →
    NoThis as.terminals → Traces decl sub as.occurrences (Code.moreArgs ctx as)
  | .nil, _, _, _, _ => .nil
  | .cons _ e rest, out, out', h, hthis => by
    obtain ⟨out₁, he, hrest⟩ := bind_eq_ok_iff.1 h
    simp only [MoreArgs.terminals, noThis_symbol, noThis_append] at hthis
    exact (expr_traces hctx e he hthis.1).append (moreArgs_traces hctx rest hrest hthis.2)

end

mutual

theorem stmt_traces (hctx : ctx.For decl sub) (n : Nat) : ∀ (s : Stmt) {out out' : Output},
    ctx.stmt s out = .ok out' →
    NoThis s.terminals → Traces decl sub s.occurrences (Code.stmt ctx n s)
  | .assign _ target none _ value _, out, out', h, hthis => by
    obtain ⟨v, hv, hrest⟩ := bind_eq_ok_iff.1 h
    obtain ⟨out₁, hvalue, -⟩ := bind_eq_ok_iff.1 hrest
    simp only [Stmt.terminals, noThis_keyword, noThis_ident, noThis_append, noThis_symbol] at hthis
    have hpop := hctx.shows_pop hv hthis.1
    exact (expr_traces hctx value hvalue hthis.2.2.1).append (.single hpop)
  | .assign _ target (some index) _ value _, out, out', h, hthis => by
    obtain ⟨v, hv, hrest⟩ := bind_eq_ok_iff.1 h
    obtain ⟨out₁, hindex, hrest'⟩ := bind_eq_ok_iff.1 hrest
    obtain ⟨out₂, hvalue, -⟩ := bind_eq_ok_iff.1 hrest'
    simp only [Stmt.terminals, noThis_keyword, noThis_ident, noThis_append, noThis_symbol] at hthis
    refine .next (hctx.shows_push hv hthis.1) ?_
    refine (offset_traces hctx index hindex hthis.2.1).append (.other rfl ?_)
    have hvalue' := expr_traces hctx value hvalue hthis.2.2.1
    exact hvalue'.andThen (.other rfl (.other rfl (.other rfl .nil)))
  | .branch _ _ condition _ yes no, out, out', h, hthis => by
    obtain ⟨out₁, out₂, out₃, hcondition, hno, hyes, -⟩ := branch_eq_ok h
    simp only [Stmt.terminals, noThis_keyword, noThis_append, noThis_symbol] at hthis
    refine (expr_traces hctx condition hcondition hthis.1).append (.other rfl ?_)
    refine (otherwise_traces hctx _ no hno hthis.2.2).append (.other rfl (.other rfl ?_))
    exact (block_traces hctx _ yes hyes hthis.2.1).andThen (.other rfl .nil)
  | .loop _ _ condition _ body, out, out', h, hthis => by
    obtain ⟨out₁, out₂, hcondition, hbody, -⟩ := loop_eq_ok h
    simp only [Stmt.terminals, noThis_keyword, noThis_append, noThis_symbol] at hthis
    have hcondition' := expr_traces hctx condition hcondition hthis.1
    refine .other rfl (hcondition'.append (.other rfl (.other rfl (.other rfl ?_))))
    exact (block_traces hctx _ body hbody hthis.2).andThen (.other rfl (.other rfl .nil))
  | .perform _ c _, out, out', h, hthis => by
    obtain ⟨out₁, hc, -⟩ := bind_eq_ok_iff.1 h
    simp only [Stmt.terminals, noThis_keyword, noThis_append] at hthis
    exact (call_traces hctx c hc hthis.1).andThen (.other rfl .nil)
  | .finish _ none _, _, _, _, _ => .other rfl (.other rfl .nil)
  | .finish _ (some value) _, out, out', h, hthis => by
    obtain ⟨out₁, hvalue, -⟩ := bind_eq_ok_iff.1 h
    simp only [Stmt.terminals, noThis_keyword, noThis_append] at hthis
    exact (expr_traces hctx value hvalue hthis.1).andThen (.other rfl .nil)

theorem otherwise_traces (hctx : ctx.For decl sub) (n : Nat) : ∀ (no : Otherwise)
    {out out' : Output}, ctx.otherwise no out = .ok out' →
    NoThis no.terminals → Traces decl sub no.occurrences (Code.otherwise ctx n no)
  | .none, _, _, _, _ => .nil
  | .some _ b, out, out', h, hthis => by
    simp only [Otherwise.terminals, noThis_keyword] at hthis
    exact block_traces hctx n b h hthis

theorem block_traces (hctx : ctx.For decl sub) (n : Nat) : ∀ (b : Block) {out out' : Output},
    ctx.block b out = .ok out' →
    NoThis b.terminals → Traces decl sub b.occurrences (Code.block ctx n b)
  | .mk _ body _, out, out', h, hthis => by
    simp only [Block.terminals, noThis_symbol, noThis_append] at hthis
    exact stmts_traces hctx n body h hthis.1

theorem stmts_traces (hctx : ctx.For decl sub) (n : Nat) : ∀ (body : Stmts) {out out' : Output},
    ctx.stmts body out = .ok out' →
    NoThis body.terminals → Traces decl sub body.occurrences (Code.stmts ctx n body)
  | .nil, _, _, _, _ => .nil
  | .cons s rest, out, out', h, hthis => by
    obtain ⟨out₁, hs, hrest⟩ := bind_eq_ok_iff.1 h
    simp only [Stmts.terminals, noThis_append] at hthis
    exact (stmt_traces hctx n s hs hthis.1).append (stmts_traces hctx _ rest hrest hthis.2)

end

end Context

/-! ### Compiled classes -/

open Generator

/-- The block is the code of a subroutine of the class with every variable in its slot. -/
structure UsesSlots (decl : ClassDecl) (sub : Subroutine) (block : List Instr) : Prop where
  header : ∃ rest, block = .function (qualifiedName decl.name.name sub.name.name)
    (cellCount decl sub .localVar) :: rest
  traces : Traces decl sub sub.occurrences block
  /-- A name has one slot. -/
  unique : ∀ {name type type' : String} {segment segment' : Segment} {k k' : Nat},
    Slot decl sub name type segment k → Slot decl sub name type' segment' k' →
      type = type' ∧ segment = segment' ∧ k = k'
  /-- Variables do not share a cell. -/
  apart : ∀ {name name' type type' : String} {segment : Segment} {k : Nat},
    Slot decl sub name type segment k → Slot decl sub name' type' segment k → name = name'
  /-- The first argument of a method is none of its variables. -/
  first : sub.kind = .method → ∀ name type, ¬ Slot decl sub name type .argument 0
  index_lt : ∀ i ∈ block, ∀ segment k, i.cell? = some (segment, k) →
    k < cellCount decl sub segment

theorem Stage.traces {stage : Stage} (hctx : stage.ctx.For decl stage.sub)
    (hthis : NoThis stage.sub.body.statements.terminals) :
    Traces decl stage.sub stage.sub.occurrences stage.code := by
  have hstmts := Context.stmts_traces hctx stage.before.output.labels stage.sub.body.statements
    (subroutine_eq_ok stage.compiles).2 hthis
  have hprologue : Traces decl stage.sub stage.sub.kind.occurrences
      (prologue stage.sub.kind stage.after.scope) := by
    cases hkind : stage.sub.kind with
    | constructor => exact .other rfl (.next .library (.other rfl .nil))
    | method => exact .next (.argument hkind) (.other rfl .nil)
    | function => exact .nil
  exact .other rfl (hprologue.append hstmts)

theorem Stage.usesSlots {stage : Stage} (hctx : stage.ctx.For decl stage.sub)
    (hthis : NoThis stage.sub.body.statements.terminals) : UsesSlots decl stage.sub stage.code := by
  have htraces := Stage.traces hctx hthis
  refine ⟨?_, htraces, Slot.unique hctx.lists, fun h h' => h.name_eq h' rfl, ?_, ?_⟩
  · have hclass : stage.after.scope.className = decl.name.name := hctx.className
    have hlocals : stage.after.scope.countOf .localVar = stage.sub.locals.length :=
      hctx.lists.countOf .localVar
    refine ⟨stage.body, ?_⟩
    rw [stage.code_eq, hclass, hlocals, cellCount]
  · intro hmethod name type h
    exact h.ne_zero_of_method hmethod rfl
  · intro i hi segment k hcell
    have huse : i.isUse = true := by
      cases i <;> simp_all [Instr.isUse, Instr.cell?]
    obtain ⟨o, -, piece, hshows, hmem⟩ := htraces.exists_shows hi huse
    exact hshows.index_lt hmem hcell

/-- Every subroutine of a source has its block in the code, and the block uses the slots that the
declarations give: its occurrences of names and its calls are shown in turn, and it uses no other
cell. -/
theorem compileSource_usesSlots {unit source : String} {code : List Instr}
    (h : compileSource unit source = .ok code) :
    ∃ decl, parseSource unit source = .ok decl ∧
      List.Forall₂ (UsesSlots decl) decl.subroutines (functionBlocks code) := by
  obtain ⟨decl, scope, stages, g, hparse, hcompiled, -, hblocks⟩ :=
    exists_stages_of_compileSource h
  refine ⟨decl, hparse, ?_⟩
  rw [hblocks, ← hcompiled.subs, List.forall₂_map_left_iff, List.forall₂_map_right_iff,
    List.forall₂_same]
  intro stage hstage
  have hsub : stage.sub ∈ decl.subroutines := by
    rw [← hcompiled.subs]
    exact List.mem_map_of_mem hstage
  have hthis := (noThis_of_parseSource hparse).mono (ClassDecl.terminals_statements_subset hsub)
  exact Stage.usesSlots (hcompiled.ctx_for hstage) hthis

/-- The method that counts down has its argument behind its object. -/
theorem countDown_usesSlots : compileSource "A" countDownSource = .ok countDownCode ∧
    UsesSlots countDownClass countDown countDownCode ∧
    countDown.occurrences = [.current, .read "n", .read "n", .written "n", .current] ∧
    Slot countDownClass countDown "n" "int" .argument 1 := by
  obtain ⟨decl, hparse, huses⟩ := compileSource_usesSlots compileSource_countDown
  obtain rfl : countDownClass = decl := Except.ok.inj (parseSource_countDown.symm.trans hparse)
  have hblocks : functionBlocks countDownCode = [countDownCode] := by decide
  rw [hblocks] at huses
  obtain ⟨huses, -⟩ := List.forall₂_cons.1 huses
  refine ⟨compileSource_countDown, huses, by decide, ?_⟩
  exact .parameter (k := 0) (by decide) (by decide)

end Jack
