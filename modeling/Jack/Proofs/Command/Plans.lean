import Jack.Command.Disk
import Jack.Command.Unit
import Jack.Proofs.Command.Paths

/-!
The plan for a unit. It writes the outputs of the unit, each of them once at most. Behind reports
and listings stands one last step, which the compilation of the source decides: the file with the
code, or the failure.
-/

namespace Jack

/-! ### The outputs of a unit -/

/-- What the names of the outputs end in. -/
def Settings.suffixes (settings : Settings) : List String :=
  (if settings.emitTokens then ["T.xml"] else []) ++ (if settings.emitTree then [".xml"] else []) ++
    [".vm"]

/-- The directory of the outputs of the units in a directory. -/
def Settings.outputDir (settings : Settings) (dir : String) : String :=
  settings.outDir.getD (Path.around dir)

/-- The path is that of a source in the directory. -/
def IsUnitIn (dir unit : String) : Prop :=
  ∃ name, Path.IsName name ∧ (Path.splitName name).2 = some "jack" ∧ unit = Path.join dir name

def Step.path? : Step → Option String
  | write path _ _ => some path
  | _ => none

section

variable (settings : Settings) (unit source : String)

theorem paths_tokens (ts : List Token) :
    (Plan.tokens settings unit source ts).filterMap Step.path? =
      (if settings.emitTokens then ["T.xml"] else []).map (outputPath settings unit) := by
  unfold Plan.tokens
  split <;> rfl

theorem paths_tree (decl : ClassDecl) :
    (Plan.tree settings unit source decl).filterMap Step.path? =
      (if settings.emitTree then [".xml"] else []).map (outputPath settings unit) := by
  unfold Plan.tree
  split <;> rfl

theorem paths_className (decl : ClassDecl) :
    (Plan.className unit decl).filterMap Step.path? = [] := by
  unfold Plan.className
  split <;> rfl

theorem paths_generating (decl : ClassDecl) (reached : List Subroutine) :
    (Plan.generating decl reached).filterMap Step.path? = [] := by
  simp [Plan.generating, Step.path?]

theorem paths_code (decl : ClassDecl) :
    ((Plan.code settings unit source decl).filterMap Step.path?).Sublist
      ([".vm"].map (outputPath settings unit)) := by
  unfold Plan.code
  split
  · simp [paths_generating, Plan.reject, Step.path?]
  · simp [paths_generating, Step.path?]

theorem paths_parsed (ts : List Token) :
    ((Plan.parsed settings unit source ts).filterMap Step.path?).Sublist
      (((if settings.emitTree then [".xml"] else []) ++ [".vm"]).map
        (outputPath settings unit)) := by
  have hreports (rest : List Step) : (.report (.lexing unit) :: .report (.lexed ts.length) ::
      .report (.parsing unit ts.length) :: rest : List Step).filterMap Step.path? =
        rest.filterMap Step.path? := rfl
  unfold Plan.parsed
  rw [hreports]
  cases parseTokens source ts with
  | error e => exact List.nil_sublist _
  | ok decl =>
    simp only [List.filterMap_append, paths_className, paths_tree, List.nil_append, List.map_append]
    exact (paths_code settings unit source decl).append_left _

/-- Each output is written once at most. -/
theorem paths_plan : ((plan settings unit source).filterMap Step.path?).Sublist
    (settings.suffixes.map (outputPath settings unit)) := by
  have hreport (rest : List Step) : (.report (.compiling unit) :: rest).filterMap Step.path? =
    rest.filterMap Step.path? := rfl
  unfold plan
  rw [hreport]
  cases tokenize source with
  | error e =>
    simp only
    split <;> exact List.nil_sublist _
  | ok ts =>
    simp only [List.filterMap_append, paths_tokens, Settings.suffixes, List.append_assoc]
    rw [List.map_append]
    exact (paths_parsed settings unit source ts).append_left _

end

section

variable {settings : Settings} {dir unit suffix : String}

theorem Settings.mem_suffixes : suffix ∈ settings.suffixes ↔
    (settings.emitTokens = true ∧ suffix = "T.xml") ∨
      (settings.emitTree = true ∧ suffix = ".xml") ∨ suffix = ".vm" := by
  simp [suffixes]

namespace IsUnitIn

/-- A unit is named after its stem. -/
theorem eq_join (h : IsUnitIn dir unit) :
    Path.IsName (Path.stem unit ++ ".jack") ∧ unit = Path.join dir (Path.stem unit ++ ".jack") := by
  obtain ⟨name, hname, hext, rfl⟩ := h
  have hdot : "." ++ "jack" = ".jack" := by decide
  have heq := Path.eq_of_splitName hext
  rw [String.append_assoc, hdot, ← Path.stem_join dir hname] at heq
  exact ⟨heq ▸ hname, congrArg (Path.join dir) heq⟩

theorem outputPath_eq (h : IsUnitIn dir unit) (suffix : String) :
    outputPath settings unit suffix =
      Path.join (settings.outputDir dir) (Path.stem unit ++ suffix) := by
  obtain ⟨name, hname, -, rfl⟩ := h
  rw [outputPath, Path.parent?_join dir hname]
  rfl

theorem isName_output (h : IsUnitIn dir unit) (hsuffix : suffix ∈ settings.suffixes) :
    Path.IsName (Path.stem unit ++ suffix) := by
  have hstem : '/' ∉ (Path.stem unit).toList := by
    intro hmem
    exact h.eq_join.1.1 (by rw [String.toList_append]; exact List.mem_append_left _ hmem)
  rcases Settings.mem_suffixes.1 hsuffix with ⟨-, rfl⟩ | ⟨-, rfl⟩ | rfl
  · exact Path.isName_append hstem (by decide) (c := 'l') (by decide) (by decide)
  · exact Path.isName_append hstem (by decide) (c := 'l') (by decide) (by decide)
  · exact Path.isName_append hstem (by decide) (c := 'm') (by decide) (by decide)

end IsUnitIn

/-- The name of an output is not that of a source. -/
theorem append_ne_source (stem stem' : String) (h : suffix ∈ settings.suffixes) :
    stem ++ suffix ≠ stem' ++ ".jack" := by
  rcases Settings.mem_suffixes.1 h with ⟨-, rfl⟩ | ⟨-, rfl⟩ | rfl
  · exact Path.append_ne_append (c := 'l') (d := 'k') (by decide) (by decide) (by decide) _ _
  · exact Path.append_ne_append (c := 'l') (d := 'k') (by decide) (by decide) (by decide) _ _
  · exact Path.append_ne_append (c := 'm') (d := 'k') (by decide) (by decide) (by decide) _ _

end

/-! ### Failures that are reported -/

def Notice.failure? : Notice → Option UnitFailure
  | failed failure => some failure
  | _ => none

/-- The failures that were reported, first to last. -/
def Session.failures (s : Session) : List UnitFailure := s.notices.reverse.filterMap Notice.failure?

theorem Session.failures_cons (disk : Disk) (notice : Notice) (notices : List Notice) :
    failures ⟨disk, notice :: notices⟩ =
      failures ⟨disk, notices⟩ ++ notice.failure?.toList := by
  rw [failures, List.reverse_cons, List.filterMap_append]
  cases h : notice.failure? <;> simp [failures, h]

/-! ### The last step -/

/-- Steps that come before the last one: they report, and write listings. -/
inductive Step.Leads (settings : Settings) (unit : String) : Step → Prop
  | report {notice : Notice} (h : notice.failure? = none) : Leads settings unit (.report notice)
  | listing {suffix contents : String} (hmem : suffix ∈ settings.suffixes) (hne : suffix ≠ ".vm") :
    Leads settings unit
      (.write (outputPath settings unit suffix) contents
        (.listed (outputPath settings unit suffix)))

/-- The last step for a unit, when it is known what its source is compiled to. -/
def lastStep (settings : Settings) (unit : String) : Except Diagnostic (List Instr) → Step
  | .ok code =>
    let out := outputPath settings unit ".vm"
    .write out (render code) (.written code.length out)
  | .error d => .fail (.diagnostic d)

section

variable (settings : Settings) (unit source : String)

theorem leads_tokens (ts : List Token) :
    ∀ step ∈ Plan.tokens settings unit source ts, step.Leads settings unit := by
  intro step hstep
  unfold Plan.tokens at hstep
  split at hstep
  next htokens =>
    rcases List.mem_cons.1 hstep with rfl | hstep
    · exact .report rfl
    · obtain rfl := List.mem_singleton.1 hstep
      exact .listing (Settings.mem_suffixes.2 (.inl ⟨htokens, rfl⟩)) (by decide)
  next => simp at hstep

theorem leads_tree (decl : ClassDecl) :
    ∀ step ∈ Plan.tree settings unit source decl, step.Leads settings unit := by
  intro step hstep
  unfold Plan.tree at hstep
  split at hstep
  next htree =>
    obtain rfl := List.mem_singleton.1 hstep
    exact .listing (Settings.mem_suffixes.2 (.inr (.inl ⟨htree, rfl⟩))) (by decide)
  next => simp at hstep

theorem leads_className (decl : ClassDecl) :
    ∀ step ∈ Plan.className unit decl, step.Leads settings unit := by
  intro step hstep
  unfold Plan.className at hstep
  split at hstep
  next => simp at hstep
  next =>
    obtain rfl := List.mem_singleton.1 hstep
    exact .report rfl

theorem leads_generating (decl : ClassDecl) (reached : List Subroutine) :
    ∀ step ∈ Plan.generating decl reached, step.Leads settings unit := by
  intro step hstep
  rcases List.mem_cons.1 hstep with rfl | hstep
  · exact .report rfl
  · obtain ⟨sub, -, rfl⟩ := List.mem_map.1 hstep
    exact .report rfl

/-- What a class of a source is compiled to. -/
def compileClass (decl : ClassDecl) : Except Diagnostic (List Instr) :=
  match Generator.empty.classDecl decl with
  | .ok g => .ok g.output.code.toList
  | .error failure => .error (.located unit source (.semantic failure.error))

theorem compileSource_of_parseSource {decl : ClassDecl} (h : parseSource unit source = .ok decl) :
    compileSource unit source = compileClass unit source decl := by
  rw [compileSource, h, compileClass]
  simp only [bind, Except.bind, Generator.compile]
  cases Generator.empty.classDecl decl <;> rfl

theorem exists_code_eq (decl : ClassDecl) : ∃ front,
    (∀ step ∈ front, step.Leads settings unit) ∧ Plan.code settings unit source decl =
      front ++ [lastStep settings unit (compileClass unit source decl)] := by
  unfold Plan.code compileClass
  cases Generator.empty.classDecl decl with
  | error failure => exact ⟨_, leads_generating settings unit decl _, rfl⟩
  | ok g =>
    refine ⟨_, leads_generating settings unit decl decl.subroutines, ?_⟩
    simp [lastStep]

theorem exists_parsed_eq {ts : List Token} (h : tokenize source = .ok ts) : ∃ front,
    (∀ step ∈ front, step.Leads settings unit) ∧ Plan.parsed settings unit source ts =
      front ++ [lastStep settings unit (compileSource unit source)] := by
  have hreports : ∀ step ∈ ([.report (.lexing unit), .report (.lexed ts.length),
      .report (.parsing unit ts.length)] : List Step), step.Leads settings unit := by
    simp only [List.forall_mem_cons, List.not_mem_nil, false_imp_iff, implies_true, and_true]
    exact ⟨.report rfl, .report rfl, .report rfl⟩
  unfold Plan.parsed
  cases hparse : parseTokens source ts with
  | error e =>
    have hcompile : compileSource unit source = .error (.located unit source (.syntactic e)) := by
      simp [compileSource, parseSource, h, hparse, bind, Except.bind]
    rw [hcompile]
    exact ⟨_, hreports, rfl⟩
  | ok decl =>
    have hdecl : parseSource unit source = .ok decl := by simp [parseSource, h, hparse]
    have hcompile := compileSource_of_parseSource unit source hdecl
    obtain ⟨front, hfront, hcode⟩ := exists_code_eq settings unit source decl
    refine ⟨_ ++ (Plan.className unit decl ++ Plan.tree settings unit source decl ++ front),
      List.forall_mem_append.2 ⟨hreports, List.forall_mem_append.2
        ⟨List.forall_mem_append.2 ⟨leads_className settings unit decl,
          leads_tree settings unit source decl⟩, hfront⟩⟩, ?_⟩
    simp [hcode, hcompile]

/-- The source decides the last step for a unit, in the same way whatever comes before it. -/
theorem exists_plan_eq : ∃ front, (∀ step ∈ front, step.Leads settings unit) ∧
    plan settings unit source = front ++ [lastStep settings unit (compileSource unit source)] := by
  have hcompiling : (Step.report (.compiling unit)).Leads settings unit := .report rfl
  unfold plan
  cases htokens : tokenize source with
  | error e =>
    have hcompile : compileSource unit source = .error (.located unit source (.lexical e)) := by
      simp [compileSource, parseSource, htokens, bind, Except.bind]
    have hlexing : ∀ step ∈ if settings.emitTokens then [] else [Step.report (.lexing unit)],
        step.Leads settings unit := by
      split
      · simp
      · exact List.forall_mem_singleton.2 (.report rfl)
    rw [hcompile]
    exact ⟨_, List.forall_mem_cons.2 ⟨hcompiling, hlexing⟩, rfl⟩
  | ok ts =>
    obtain ⟨front, hfront, hparsed⟩ := exists_parsed_eq settings unit source htokens
    refine ⟨.report (.compiling unit) :: (Plan.tokens settings unit source ts ++ front),
      List.forall_mem_cons.2 ⟨hcompiling, List.forall_mem_append.2
        ⟨leads_tokens settings unit source ts, hfront⟩⟩, ?_⟩
    simp [hparsed]

end

/-- What a step for the unit can be: it writes outputs of the unit only, and does not itself report
a failure. -/
def Step.IsFor (settings : Settings) (unit : String) : Step → Prop
  | report notice => notice.failure? = none
  | write path _ notice =>
    (∃ suffix ∈ settings.suffixes, path = outputPath settings unit suffix) ∧ notice.failure? = none
  | fail _ => True

theorem plan_isFor (settings : Settings) (unit source : String) :
    ∀ step ∈ plan settings unit source, step.IsFor settings unit := by
  have hvm : ".vm" ∈ settings.suffixes := Settings.mem_suffixes.2 (.inr (.inr rfl))
  obtain ⟨front, hfront, hplan⟩ := exists_plan_eq settings unit source
  rw [hplan, List.forall_mem_append, List.forall_mem_singleton]
  refine ⟨fun step hstep => ?_, ?_⟩
  · cases hfront step hstep with
    | report h => exact h
    | listing hmem _ => exact ⟨⟨_, hmem, rfl⟩, rfl⟩
  · cases compileSource unit source with
    | error d => trivial
    | ok code => exact ⟨⟨".vm", hvm, rfl⟩, rfl⟩

end Jack
