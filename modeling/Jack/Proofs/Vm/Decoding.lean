import Std.Data.String.ToNat
import Jack.Proofs.Text.Lines
import Jack.Proofs.Vm.Names

/-!
Programs read back from their texts. A line is cut into words at its blanks; the first word says
which instruction it is, and the others are its operands. Reading gives back what was written if
there is no blank and no line feed in the names, and code of a source has such names only.
-/

namespace Jack

/-! ### Words -/

/-- What a word spells, among all that can be spelled. -/
def spelledBy? {α : Type} (all : List α) (text : α → String) (word : String) : Option α :=
  all.find? (text · == word)

def Segment.ofText? : String → Option Segment :=
  spelledBy? [.constant, .static, .this, .argument, .localVar, .pointer, .temp, .that] text

def ArithOp.ofText? : String → Option ArithOp :=
  spelledBy? [.add, .sub, .neg, .eq, .gt, .lt, .and, .or, .not] text

def LabelRole.ofText? : String → Option LabelRole :=
  spelledBy? [.condition, .holds, .loopEnd, .branchEnd] text

@[simp] theorem Segment.ofText?_text (segment : Segment) : ofText? segment.text = some segment := by
  cases segment <;> decide

@[simp] theorem ArithOp.ofText?_text (o : ArithOp) : ofText? o.text = some o := by
  cases o <;> decide

@[simp] theorem LabelRole.ofText?_text (role : LabelRole) : ofText? role.text = some role := by
  cases role <;> decide

/-- The text has none of the characters that stand between words and lines. -/
def IsSolid (text : String) : Prop := ' ' ∉ text.toList ∧ '\n' ∉ text.toList

instance : DecidablePred IsSolid := fun text =>
  inferInstanceAs (Decidable (' ' ∉ text.toList ∧ '\n' ∉ text.toList))

theorem notMem_repr {c : Char} (hc : c.isDigit = false) (n : Nat) : c ∉ n.repr.toList := by
  rw [Nat.toList_repr]
  intro hmem
  have hdigit := Nat.isDigit_of_mem_toDigits (by decide) (by decide) hmem
  simp [hc] at hdigit

theorem isSolid_repr (n : Nat) : IsSolid n.repr :=
  ⟨notMem_repr (by decide) n, notMem_repr (by decide) n⟩

theorem Segment.isSolid_text (segment : Segment) : IsSolid segment.text := by
  cases segment <;> decide

theorem ArithOp.isSolid_text (o : ArithOp) : IsSolid o.text := by cases o <;> decide

/-! ### Labels -/

namespace Label

def text (l : Label) : String := String.join l.pieces

theorem toList_text (l : Label) :
    l.text.toList = l.role.text.toList ++ '.' :: l.number.repr.toList := by
  simp [text, pieces]

/-- Reads what it marks before the dot, and its number behind. -/
def ofText? (word : String) : Option Label :=
  match word.toList.splitOn '.' with
  | [role, number] => do
    let role ← LabelRole.ofText? (String.ofList role)
    let number ← (String.ofList number).toNat?
    return ⟨role, number⟩
  | _ => none

theorem ofText?_text (l : Label) : ofText? l.text = some l := by
  have hrole : '.' ∉ l.role.text.toList := by cases l.role <;> decide
  have hnumber : '.' ∉ l.number.repr.toList := notMem_repr (by decide) l.number
  rw [ofText?, toList_text, List.splitOn_append_cons_self_of_not_mem hrole,
    List.splitOn_eq_singleton hnumber]
  simp only [String.ofList_toList, LabelRole.ofText?_text, Nat.toNat?_repr]
  rfl

theorem isSolid_text (l : Label) : IsSolid l.text := by
  have hrole : IsSolid l.role.text := by cases l.role <;> decide
  have hnumber := isSolid_repr l.number
  simp only [IsSolid, toList_text, List.mem_append, List.mem_cons, not_or] at hrole hnumber ⊢
  exact ⟨⟨hrole.1, by decide, hnumber.1⟩, hrole.2, by decide, hnumber.2⟩

end Label

/-! ### Instructions -/

namespace Instr

/-- The words of an instruction's line. -/
def words : Instr → List String
  | push segment index => ["push", segment.text, index.repr]
  | pop segment index => ["pop", segment.text, index.repr]
  | op o => [o.text]
  | label l => ["label", l.text]
  | goto l => ["goto", l.text]
  | ifGoto l => ["if-goto", l.text]
  | function name locals => ["function", name, locals.repr]
  | call name args => ["call", name, args.repr]
  | ret => ["return"]

/-- The instruction with these words. -/
def ofWords? : List String → Option Instr
  | ["push", segment, index] => do return push (← Segment.ofText? segment) (← index.toNat?)
  | ["pop", segment, index] => do return pop (← Segment.ofText? segment) (← index.toNat?)
  | ["label", l] => (Label.ofText? l).map label
  | ["goto", l] => (Label.ofText? l).map goto
  | ["if-goto", l] => (Label.ofText? l).map ifGoto
  | ["function", name, locals] => locals.toNat?.map (function name)
  | ["call", name, args] => args.toNat?.map (call name)
  | ["return"] => some ret
  | [word] => (ArithOp.ofText? word).map op
  | _ => none

theorem ofWords?_words (i : Instr) : ofWords? i.words = some i := by
  cases i with
  | push | pop => simp [words, ofWords?]
  | label l | goto l | ifGoto l => simp [words, ofWords?, Label.ofText?_text]
  | function | call => simp [words, ofWords?]
  | op o => cases o <;> decide
  | ret => rfl

/-- A line is its words with a blank between any two of them. -/
theorem toList_text (i : Instr) :
    i.text.toList = [' '].intercalate (i.words.map String.toList) := by
  cases i with
  | push | pop | function | call => simp [text, pieces, words, List.intercalate]
  | label l | goto l | ifGoto l =>
    simp [text, pieces, words, List.intercalate, Label.text]
  | op o => simp [text, pieces, words, List.intercalate]
  | ret => simp [text, pieces, words, List.intercalate]

theorem Named.isSolid_words {i : Instr} (h : i.Named) : ∀ word ∈ i.words, IsSolid word := by
  cases i with
  | push segment n | pop segment n =>
    simpa [words, isSolid_repr, Segment.isSolid_text] using by decide
  | label l | goto l | ifGoto l => simpa [words, Label.isSolid_text] using by decide
  | function name n | call name n =>
    have hname : IsSolid name := (h name rfl).2
    simpa [words, isSolid_repr, hname] using by decide
  | op o => simpa [words] using o.isSolid_text
  | ret => simpa [words] using by decide

/-- Reads the instruction on a line. -/
def ofLine? (line : List Char) : Option Instr :=
  ofWords? ((line.splitOn ' ').map String.ofList)

theorem Named.ofLine?_text {i : Instr} (h : i.Named) : ofLine? i.text.toList = some i := by
  have hwords : (i.words.map String.toList).map String.ofList = i.words := by simp
  have hblank : ∀ word ∈ i.words.map String.toList, ' ' ∉ word := by
    intro cs hcs
    obtain ⟨word, hword, rfl⟩ := List.mem_map.1 hcs
    exact (h.isSolid_words word hword).1
  have hne : i.words.map String.toList ≠ [] := by cases i <;> simp [words]
  rw [ofLine?, toList_text, List.splitOn_intercalate ' ' hblank hne, hwords, ofWords?_words]

theorem mem_of_mem_intercalate {c sep : Char} {ls : List (List Char)}
    (h : c ∈ [sep].intercalate ls) (hne : c ≠ sep) : ∃ l ∈ ls, c ∈ l := by
  induction ls with
  | nil => simp at h
  | cons l ls ih =>
    cases ls with
    | nil => exact ⟨l, List.mem_cons_self, by simpa using h⟩
    | cons l' ls =>
      rw [List.intercalate_cons_cons, List.mem_append, List.mem_append, List.mem_singleton] at h
      rcases h with (h | h) | h
      · exact ⟨l, List.mem_cons_self, h⟩
      · exact absurd h hne
      · obtain ⟨l'', hmem, hc⟩ := ih h
        exact ⟨l'', List.mem_cons_of_mem l hmem, hc⟩

theorem Named.feed_notMem_text {i : Instr} (h : i.Named) : '\n' ∉ i.text.toList := by
  intro hmem
  rw [toList_text] at hmem
  obtain ⟨cs, hcs, hmem⟩ := mem_of_mem_intercalate hmem (by decide)
  obtain ⟨word, hword, rfl⟩ := List.mem_map.1 hcs
  exact (h.isSolid_words word hword).2 hmem

end Instr

/-! ### Programs -/

/-- Reads the instructions of a program, one from each line. -/
def readProgram? (text : String) : Option (List Instr) := (endedLines text).mapM Instr.ofLine?

theorem render_eq_join (code : List Instr) :
    render code = String.join (code.map fun i => i.text ++ "\n") := by
  have hfoldl (out : String) : code.foldl (fun out i => out ++ i.text ++ "\n") out =
      out ++ String.join (code.map fun i => i.text ++ "\n") := by
    induction code generalizing out with
    | nil => simp
    | cons i code ih =>
      rw [List.foldl_cons, ih, List.map_cons, String.join_cons]
      simp [String.append_assoc]
  simpa [render] using hfoldl ""

theorem endedLines_render {code : List Instr} (h : ∀ i ∈ code, i.Named) :
    endedLines (render code) = code.map fun i => i.text.toList := by
  have hfeeds : ∀ line ∈ code.map Instr.text, '\n' ∉ line.toList := by
    intro line hline
    obtain ⟨i, hi, rfl⟩ := List.mem_map.1 hline
    exact (h i hi).feed_notMem_text
  have hlines := endedLines_join hfeeds
  rw [List.map_map, List.map_map] at hlines
  rw [render_eq_join]
  exact hlines

theorem readProgram?_of_named {code : List Instr} (h : ∀ i ∈ code, i.Named) :
    readProgram? (render code) = some code := by
  rw [readProgram?, endedLines_render h]
  induction code with
  | nil => rfl
  | cons i code ih =>
    rw [List.forall_mem_cons] at h
    have hrest := ih h.2
    simp [h.1.ofLine?_text, hrest]

/-- Reading gives back the code that was written, if its names are not empty and there is no blank
and no line feed in them. The code of a source has such names, so the text of a program that was
compiled leaves no doubt about its code. -/
theorem readProgram?_render :
    (∀ code : List Instr, (∀ i ∈ code, i.Named) → readProgram? (render code) = some code) ∧
      (∀ (unit source : String) (code : List Instr), compileSource unit source = .ok code →
        ∀ i ∈ code, i.Named) ∧
      ∀ (unit source unit' source' : String) (code code' : List Instr),
        compileSource unit source = .ok code → compileSource unit' source' = .ok code' →
        render code = render code' → code = code' := by
  have hnamed {unit source : String} {code : List Instr}
      (h : compileSource unit source = .ok code) : ∀ i ∈ code, i.Named :=
    fun i hi => (compileSource_qualified h i hi).named
  refine ⟨fun code h => readProgram?_of_named h, fun unit source code h => hnamed h, ?_⟩
  intro unit source unit' source' code code' h h' htext
  have hread := readProgram?_of_named (hnamed h)
  rw [htext, readProgram?_of_named (hnamed h')] at hread
  exact (Option.some.inj hread).symm

/-- The method that counts down, read back from its text. -/
theorem readProgram?_countDown :
    (∀ i ∈ countDownCode, i.Named) ∧ readProgram? (render countDownCode) = some countDownCode := by
  obtain ⟨hread, hnamed, -⟩ := readProgram?_render
  have hcode := hnamed "A" countDownSource countDownCode compileSource_countDown
  exact ⟨hcode, hread countDownCode hcode⟩

end Jack
