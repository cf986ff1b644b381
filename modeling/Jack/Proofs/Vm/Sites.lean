import Jack.Proofs.Tree.Terminals
import Jack.Vm.Emit

/-!
Where the body of a subroutine can be at fault. The variables, string constants and calls of a body
are listed in the order in which code is made for them, and what is wrong with one of them depends
on nothing but the names that mean a variable. The generation of code stops at the first fault.
-/

namespace Jack

/-! ### Sites -/

/-- A part of a body that has code under a condition. -/
inductive Site where
  /-- A variable term, the base of an index, or the target of an assignment. -/
  | use (name : Ident)
  | string (value : String) (span : Span)
  | call (receiver : Option (Ident × Span)) (name : Ident) (args : Nat)

mutual

def Expr.sites : Expr → List Site
  | .mk head tail => head.sites ++ tail.sites

def OpTerms.sites : OpTerms → List Site
  | .nil => []
  | .cons _ _ t rest => t.sites ++ rest.sites

def Term.sites : Term → List Site
  | .integer _ _ => []
  | .string value span => [.string value span]
  | .named _ _ => []
  | .paren _ e _ => e.sites
  | .unary _ _ t => t.sites
  | .var name => [.use name]
  | .element name index => .use name :: index.sites
  | .call c => c.sites

def Index.sites : Index → List Site
  | .mk _ e _ => e.sites

/-- The arguments come before the call. -/
def Call.sites : Call → List Site
  | .mk receiver name _ args _ => args.sites ++ [.call receiver name args.length]

def Args.sites : Args → List Site
  | .none => []
  | .some head tail => head.sites ++ tail.sites

def MoreArgs.sites : MoreArgs → List Site
  | .nil => []
  | .cons _ e rest => e.sites ++ rest.sites

end

mutual

/-- The target of an assignment comes before its index and its value, and what is done otherwise
first in a branch. -/
def Stmt.sites : Stmt → List Site
  | .assign _ target none _ value _ => .use target :: value.sites
  | .assign _ target (some index) _ value _ => .use target :: (index.sites ++ value.sites)
  | .branch _ _ condition _ yes no => condition.sites ++ (no.sites ++ yes.sites)
  | .loop _ _ condition _ body => condition.sites ++ body.sites
  | .perform _ c _ => c.sites
  | .finish _ none _ => []
  | .finish _ (some value) _ => value.sites

def Otherwise.sites : Otherwise → List Site
  | .none => []
  | .some _ b => b.sites

def Block.sites : Block → List Site
  | .mk _ body _ => body.sites

def Stmts.sites : Stmts → List Site
  | .nil => []
  | .cons s rest => s.sites ++ rest.sites

end

/-- The arguments that the receiver of a call makes: the current object if there is no receiver, and
the object that a variable has. The name of a class makes none. -/
def hiddenArgs (isVariable : String → Bool) : Option (Ident × Span) → Nat
  | none => 1
  | some (object, _) => if isVariable object.name then 1 else 0

/-- What is wrong with a site, if these names mean variables. -/
def Site.error? (isVariable : String → Bool) : Site → Option CompileError
  | .use name =>
    if isVariable name.name then none else some ⟨.undefined name.name, name.span⟩
  | .string value span =>
    if maxOperand < value.length then some ⟨.unsupported "string constant is too long", span⟩
    else if value.toList.any (maxOperand < ·.toNat) then
      some ⟨.unsupported "character does not fit in a word", span⟩
    else none
  | .call receiver name args =>
    if args + hiddenArgs isVariable receiver ≤ maxOperand then none
    else some ⟨.unsupported "too many call arguments", name.span⟩

/-- The error of the first site that has one. -/
def firstError? (isVariable : String → Bool) (sites : List Site) : Option CompileError :=
  sites.findSome? (Site.error? isVariable)

section

variable (isVariable : String → Bool) (site : Site) (sites sites' : List Site)

@[simp] theorem firstError?_nil : firstError? isVariable [] = none := rfl

@[simp] theorem firstError?_cons : firstError? isVariable (site :: sites) =
    (site.error? isVariable).or (firstError? isVariable sites) := by
  simp only [firstError?, List.findSome?_cons]
  cases site.error? isVariable <;> rfl

@[simp] theorem firstError?_append : firstError? isVariable (sites ++ sites') =
    (firstError? isVariable sites).or (firstError? isVariable sites') :=
  List.findSome?_append

end

/-! ### Places in the text -/

/-- The names and constants that a site has. -/
def Site.terminals : Site → List Terminal
  | .use name => [name.terminal]
  | .string value span => [.string value span]
  | .call none name _ => [name.terminal]
  | .call (some (object, _)) name _ => [object.terminal, name.terminal]

/-- Only the names of a site matter to its error. -/
theorem Site.error?_congr {p q : String → Bool} {site : Site}
    (h : ∀ name span, .identifier name span ∈ site.terminals → p name = q name) :
    site.error? p = site.error? q := by
  cases site with
  | use name =>
    have hname : p name.name = q name.name :=
      h name.name name.span (by simp [terminals, Ident.terminal])
    simp only [error?, hname]
  | string value span => rfl
  | call receiver name args =>
    cases receiver with
    | none => rfl
    | some object =>
      have hname : p object.1.name = q object.1.name :=
        h object.1.name object.1.span (by simp [terminals, Ident.terminal])
      have hhidden : hiddenArgs p (some object) = hiddenArgs q (some object) := by
        simp [hiddenArgs, hname]
      simp only [error?, hhidden]

/-- An error is at a terminal of its site. -/
theorem Site.span_of_error? {isVariable : String → Bool} {site : Site} {e : CompileError}
    (h : site.error? isVariable = some e) : ∃ x ∈ site.terminals, x.token.span = e.span := by
  cases site with
  | use name =>
    simp only [Site.error?] at h
    split at h
    · simp at h
    · obtain rfl := Option.some.inj h
      exact ⟨name.terminal, by simp [terminals], rfl⟩
  | string value span =>
    simp only [Site.error?] at h
    split at h
    · obtain rfl := Option.some.inj h
      exact ⟨.string value span, by simp [terminals], rfl⟩
    · split at h
      · obtain rfl := Option.some.inj h
        exact ⟨.string value span, by simp [terminals], rfl⟩
      · simp at h
  | call receiver name args =>
    simp only [Site.error?] at h
    split at h
    · simp at h
    · obtain rfl := Option.some.inj h
      cases receiver with
      | none => exact ⟨name.terminal, by simp [terminals], rfl⟩
      | some receiver => exact ⟨name.terminal, by simp [terminals], rfl⟩

/-- The sites have their terminals from the list. -/
def SitesIn (sites : List Site) (ts : List Terminal) : Prop :=
  ∀ site ∈ sites, ∀ x ∈ site.terminals, x ∈ ts

namespace SitesIn

variable {sites sites' : List Site} {ts ts' : List Terminal} {site : Site}

theorem nil : SitesIn [] ts := by simp [SitesIn]

theorem append (h : SitesIn sites ts) (h' : SitesIn sites' ts) : SitesIn (sites ++ sites') ts := by
  intro site hsite
  rcases List.mem_append.1 hsite with hsite | hsite
  · exact h site hsite
  · exact h' site hsite

theorem cons (h : ∀ x ∈ site.terminals, x ∈ ts) (h' : SitesIn sites ts) :
    SitesIn (site :: sites) ts := by
  intro site' hsite
  rcases List.mem_cons.1 hsite with rfl | hsite
  · exact h
  · exact h' site' hsite

theorem single (h : ∀ x ∈ site.terminals, x ∈ ts) : SitesIn [site] ts := cons h nil

theorem mono (h : SitesIn sites ts) (hsubset : ts ⊆ ts') : SitesIn sites ts' :=
  fun site hsite x hx => hsubset (h site hsite x hx)

theorem of_cons (h : SitesIn (site :: sites) ts) :
    (∀ x ∈ site.terminals, x ∈ ts) ∧ SitesIn sites ts :=
  ⟨h site List.mem_cons_self, fun site' hsite => h site' (List.mem_cons_of_mem _ hsite)⟩

theorem firstError?_congr {p q : String → Bool} (hsites : SitesIn sites ts)
    (h : ∀ name span, .identifier name span ∈ ts → p name = q name) :
    firstError? p sites = firstError? q sites := by
  induction sites with
  | nil => rfl
  | cons site sites ih =>
    obtain ⟨hsite, hrest⟩ := hsites.of_cons
    have herror : site.error? p = site.error? q :=
      Site.error?_congr fun name span hmem => h name span (hsite _ hmem)
    rw [Jack.firstError?_cons, Jack.firstError?_cons, herror, ih hrest]

end SitesIn

mutual

theorem Expr.sitesIn : ∀ e : Expr, SitesIn e.sites e.terminals
  | .mk head tail =>
    (head.sitesIn.mono (List.subset_append_left ..)).append
      (tail.sitesIn.mono (List.subset_append_right ..))

theorem OpTerms.sitesIn : ∀ xs : OpTerms, SitesIn xs.sites xs.terminals
  | .nil => .nil
  | .cons op span t rest => by
    apply SitesIn.append
    · apply t.sitesIn.mono
      intro x hx
      simp [OpTerms.terminals, hx]
    · apply rest.sitesIn.mono
      intro x hx
      simp [OpTerms.terminals, hx]

theorem Term.sitesIn : ∀ t : Term, SitesIn t.sites t.terminals
  | .integer _ _ => .nil
  | .string value span => .single fun x hx => hx
  | .named _ _ => .nil
  | .paren left e right => by
    apply e.sitesIn.mono
    intro x hx
    simp [Term.terminals, hx]
  | .unary op span t => by
    apply t.sitesIn.mono
    intro x hx
    simp [Term.terminals, hx]
  | .var name => .single fun x hx => hx
  | .element name index => by
    apply SitesIn.cons
    · simp [Site.terminals, Term.terminals]
    · apply index.sitesIn.mono
      intro x hx
      simp [Term.terminals, hx]
  | .call c => c.sitesIn

theorem Index.sitesIn : ∀ index : Index, SitesIn index.sites index.terminals
  | .mk left e right => by
    apply e.sitesIn.mono
    intro x hx
    simp [Index.terminals, hx]

theorem Call.sitesIn : ∀ c : Call, SitesIn c.sites c.terminals
  | .mk none name left args right => by
    apply SitesIn.append
    · apply args.sitesIn.mono
      intro x hx
      simp [Call.terminals, hx]
    · exact .single (by simp [Site.terminals, Call.terminals])
  | .mk (some (object, dot)) name left args right => by
    apply SitesIn.append
    · apply args.sitesIn.mono
      intro x hx
      simp [Call.terminals, hx]
    · exact .single (by simp [Site.terminals, Call.terminals])

theorem Args.sitesIn : ∀ args : Args, SitesIn args.sites args.terminals
  | .none => .nil
  | .some head tail =>
    (head.sitesIn.mono (List.subset_append_left ..)).append
      (tail.sitesIn.mono (List.subset_append_right ..))

theorem MoreArgs.sitesIn : ∀ more : MoreArgs, SitesIn more.sites more.terminals
  | .nil => .nil
  | .cons comma e rest => by
    apply SitesIn.append
    · apply e.sitesIn.mono
      intro x hx
      simp [MoreArgs.terminals, hx]
    · apply rest.sitesIn.mono
      intro x hx
      simp [MoreArgs.terminals, hx]

end

mutual

theorem Stmt.sitesIn : ∀ s : Stmt, SitesIn s.sites s.terminals
  | .assign keyword target none equal value semicolon => by
    apply SitesIn.cons
    · simp [Site.terminals, Stmt.terminals]
    · apply value.sitesIn.mono
      intro x hx
      simp [Stmt.terminals, hx]
  | .assign keyword target (some index) equal value semicolon => by
    apply SitesIn.cons
    · simp [Site.terminals, Stmt.terminals]
    · apply SitesIn.append
      · apply index.sitesIn.mono
        intro x hx
        simp [Stmt.terminals, hx]
      · apply value.sitesIn.mono
        intro x hx
        simp [Stmt.terminals, hx]
  | .branch keyword left condition right yes no => by
    apply SitesIn.append
    · apply condition.sitesIn.mono
      intro x hx
      simp [Stmt.terminals, hx]
    · apply SitesIn.append
      · apply no.sitesIn.mono
        intro x hx
        simp [Stmt.terminals, hx]
      · apply yes.sitesIn.mono
        intro x hx
        simp [Stmt.terminals, hx]
  | .loop keyword left condition right body => by
    apply SitesIn.append
    · apply condition.sitesIn.mono
      intro x hx
      simp [Stmt.terminals, hx]
    · apply body.sitesIn.mono
      intro x hx
      simp [Stmt.terminals, hx]
  | .perform keyword c semicolon => by
    apply c.sitesIn.mono
    intro x hx
    simp [Stmt.terminals, hx]
  | .finish _ none _ => .nil
  | .finish keyword (some value) semicolon => by
    apply value.sitesIn.mono
    intro x hx
    simp [Stmt.terminals, hx]

theorem Otherwise.sitesIn : ∀ no : Otherwise, SitesIn no.sites no.terminals
  | .none => .nil
  | .some keyword b => by
    apply b.sitesIn.mono
    intro x hx
    simp [Otherwise.terminals, hx]

theorem Block.sitesIn : ∀ b : Block, SitesIn b.sites b.terminals
  | .mk left body right => by
    apply body.sitesIn.mono
    intro x hx
    simp [Block.terminals, hx]

theorem Stmts.sitesIn : ∀ body : Stmts, SitesIn body.sites body.terminals
  | .nil => .nil
  | .cons s rest =>
    (s.sitesIn.mono (List.subset_append_left ..)).append
      (rest.sitesIn.mono (List.subset_append_right ..))

end

/-! ### The first fault -/

/-- The error that a computation ends with, if it does. -/
def errorOf {ε α : Type} (error : ε → CompileError) : Except ε α → Option CompileError
  | .ok _ => none
  | .error e => some (error e)

section

variable {ε α β : Type} {error : ε → CompileError} {x : Except ε α}

/-- What comes second does not matter if the first part fails. -/
theorem errorOf_bind {f : α → Except ε β} {next : Option CompileError}
    (h : ∀ a, x = .ok a → errorOf error (f a) = next) :
    errorOf error (x >>= f) = (errorOf error x).or next := by
  cases x with
  | ok a => exact h a rfl
  | error e => rfl

theorem errorOf_map (f : α → β) : errorOf error (x >>= fun a => pure (f a)) = errorOf error x := by
  cases x <;> rfl

end

namespace Context

variable (ctx : Context)

/-- Whether a name means a variable. -/
def sees (name : String) : Bool := (ctx.scope.lookup name).isSome

theorem resolve_errorOf (name : Ident) (out : Output) :
    errorOf Stop.error (ctx.resolve name out) = (Site.use name).error? ctx.sees := by
  simp only [resolve, Site.error?, sees]
  split
  next hv => simp [hv, errorOf]
  next hv => simp [hv, errorOf]

theorem characters_errorOf (span : Span) (cs : List Char) (out : Output) :
    errorOf Stop.error (characters span cs out) =
      if cs.any (maxOperand < ·.toNat) then
        some ⟨.unsupported "character does not fit in a word", span⟩
      else none := by
  induction cs generalizing out with
  | nil => rfl
  | cons c cs ih =>
    by_cases hc : c.toNat ≤ maxOperand
    · have hlt : ¬ maxOperand < c.toNat := by omega
      simp [characters, hc, hlt, ih]
    · have hlt : maxOperand < c.toNat := by omega
      simp [characters, hc, hlt, errorOf]

theorem string_errorOf (value : String) (span : Span) (out : Output) :
    errorOf Stop.error (string value span out) = (Site.string value span).error? ctx.sees := by
  by_cases hvalue : value.length ≤ maxOperand
  · have hlt : ¬ maxOperand < value.length := by omega
    simp only [string, hvalue, if_true, characters_errorOf, Site.error?, hlt, if_false]
  · have hlt : maxOperand < value.length := by omega
    simp [string, hvalue, Site.error?, hlt, errorOf]

theorem receiver_hidden (receiver : Option (Ident × Span)) (out : Output) :
    (ctx.receiver receiver out).2.1 = hiddenArgs ctx.sees receiver := by
  cases receiver with
  | none => rfl
  | some object =>
    simp only [Context.receiver, hiddenArgs, sees]
    split
    next hv => simp [hv]
    next hv => simp [hv]

mutual

theorem expr_errorOf : ∀ (e : Expr) (out : Output),
    errorOf Stop.error (ctx.expr e out) = firstError? ctx.sees e.sites
  | .mk head tail, out => by
    rw [expr, errorOf_bind fun out₁ _ => opTerms_errorOf tail out₁, term_errorOf head, Expr.sites,
      firstError?_append]

theorem opTerms_errorOf : ∀ (xs : OpTerms) (out : Output),
    errorOf Stop.error (ctx.opTerms xs out) = firstError? ctx.sees xs.sites
  | .nil, _ => rfl
  | .cons op _ t rest, out => by
    rw [opTerms, errorOf_bind fun out₁ _ => opTerms_errorOf rest _, term_errorOf t, OpTerms.sites,
      firstError?_append]

theorem term_errorOf : ∀ (t : Term) (out : Output),
    errorOf Stop.error (ctx.term t out) = firstError? ctx.sees t.sites
  | .integer _ _, _ => rfl
  | .string value span, out => by simp [term, string_errorOf ctx, Term.sites]
  | .named _ _, _ => rfl
  | .paren _ e _, out => by rw [term, expr_errorOf e, Term.sites]
  | .unary op _ t, out => by rw [term, errorOf_map, term_errorOf t, Term.sites]
  | .var name, out => by
    rw [term, errorOf_map, resolve_errorOf]
    simp [Term.sites]
  | .element name index, out => by
    have hindex (v : Variable) : errorOf Stop.error (do
        let out ← ctx.offset index (out.emit v.push)
        return (out.emit (.pop .pointer 1)).emit (.push .that 0)) =
          firstError? ctx.sees index.sites := by
      rw [errorOf_map, offset_errorOf index]
    rw [term, errorOf_bind fun v _ => hindex v, resolve_errorOf, Term.sites, firstError?_cons]
  | .call c, out => call_errorOf c out

theorem offset_errorOf : ∀ (index : Index) (out : Output),
    errorOf Stop.error (ctx.offset index out) = firstError? ctx.sees index.sites
  | .mk _ e _, out => by rw [offset, errorOf_map, expr_errorOf e, Index.sites]

theorem call_errorOf : ∀ (c : Call) (out : Output),
    errorOf Stop.error (ctx.call c out) = firstError? ctx.sees c.sites
  | .mk receiver name left args right, out => by
    simp only [call, Call.sites, firstError?_append, firstError?_cons, firstError?_nil,
      Option.or_none, Site.error?, ← ctx.receiver_hidden receiver out]
    generalize ctx.receiver receiver out = start
    rw [← args_errorOf args start.2.2]
    apply errorOf_bind
    intro out₁ _
    split <;> rfl

theorem args_errorOf : ∀ (args : Args) (out : Output),
    errorOf Stop.error (ctx.args args out) = firstError? ctx.sees args.sites
  | .none, _ => rfl
  | .some head tail, out => by
    rw [Context.args, errorOf_bind fun out₁ _ => moreArgs_errorOf tail out₁, expr_errorOf head,
      Args.sites, firstError?_append]

theorem moreArgs_errorOf : ∀ (more : MoreArgs) (out : Output),
    errorOf Stop.error (ctx.moreArgs more out) = firstError? ctx.sees more.sites
  | .nil, _ => rfl
  | .cons _ e rest, out => by
    rw [moreArgs, errorOf_bind fun out₁ _ => moreArgs_errorOf rest out₁, expr_errorOf e,
      MoreArgs.sites, firstError?_append]

end

mutual

theorem stmt_errorOf : ∀ (s : Stmt) (out : Output),
    errorOf Stop.error (ctx.stmt s out) = firstError? ctx.sees s.sites
  | .assign _ target none _ value _, out => by
    have hvalue (v : Variable) : errorOf Stop.error (do
        let out ← ctx.expr value out
        return out.emit v.pop) = firstError? ctx.sees value.sites := by
      rw [errorOf_map, expr_errorOf]
    rw [stmt, errorOf_bind fun v _ => hvalue v, resolve_errorOf, Stmt.sites, firstError?_cons]
  | .assign _ target (some index) _ value _, out => by
    have hvalue (out : Output) : errorOf Stop.error (do
        let out ← ctx.expr value (out.emit (.pop .temp 0))
        return ((out.emit (.push .temp 0)).emit (.pop .pointer 1)).emit (.pop .that 0)) =
          firstError? ctx.sees value.sites := by
      rw [errorOf_map, expr_errorOf]
    have hindex (v : Variable) : errorOf Stop.error (do
        let out ← ctx.offset index (out.emit v.push)
        let out ← ctx.expr value (out.emit (.pop .temp 0))
        return ((out.emit (.push .temp 0)).emit (.pop .pointer 1)).emit (.pop .that 0)) =
          firstError? ctx.sees (index.sites ++ value.sites) := by
      rw [errorOf_bind fun out₁ _ => hvalue out₁, offset_errorOf, firstError?_append]
    rw [stmt, errorOf_bind fun v _ => hindex v, resolve_errorOf, Stmt.sites, firstError?_cons]
  | .branch _ _ condition _ yes no, out => by
    rw [stmt, Stmt.sites, firstError?_append, firstError?_append, ← expr_errorOf ctx condition]
    apply errorOf_bind
    intro out₁ _
    rw [← otherwise_errorOf no]
    apply errorOf_bind
    intro out₂ _
    rw [errorOf_map, block_errorOf yes]
  | .loop _ _ condition _ body, out => by
    rw [stmt, Stmt.sites, firstError?_append, ← expr_errorOf ctx condition]
    apply errorOf_bind
    intro out₁ _
    rw [errorOf_map, block_errorOf body]
  | .perform _ c _, out => by rw [stmt, errorOf_map, call_errorOf, Stmt.sites]
  | .finish _ none _, _ => rfl
  | .finish _ (some value) _, out => by rw [stmt, errorOf_map, expr_errorOf, Stmt.sites]

theorem otherwise_errorOf : ∀ (no : Otherwise) (out : Output),
    errorOf Stop.error (ctx.otherwise no out) = firstError? ctx.sees no.sites
  | .none, _ => rfl
  | .some _ b, out => by rw [otherwise, block_errorOf b, Otherwise.sites]

theorem block_errorOf : ∀ (b : Block) (out : Output),
    errorOf Stop.error (ctx.block b out) = firstError? ctx.sees b.sites
  | .mk _ body _, out => by rw [block, stmts_errorOf body, Block.sites]

theorem stmts_errorOf : ∀ (body : Stmts) (out : Output),
    errorOf Stop.error (ctx.stmts body out) = firstError? ctx.sees body.sites
  | .nil, _ => rfl
  | .cons s rest, out => by
    rw [stmts, errorOf_bind fun out₁ _ => stmts_errorOf rest out₁, stmt_errorOf s, Stmts.sites,
      firstError?_append]

end

end Context

end Jack
