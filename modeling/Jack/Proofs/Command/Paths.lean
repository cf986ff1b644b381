import Jack.Command.Unit
import Mathlib.Data.List.Infix

/-!
Names in a directory. A path joined from a directory and a name has that name as its last part, and
in front of it parts that the directory alone decides; from these come the way to it, the directory
around it, and the paths of the outputs of a unit.
-/

namespace Jack.Path

/-- A name that an entry of a directory can have. -/
def IsName (name : String) : Prop := '/' ∉ name.toList ∧ isIdle name = false ∧ name ≠ ".."

instance : DecidablePred IsName := fun name =>
  inferInstanceAs (Decidable ('/' ∉ name.toList ∧ isIdle name = false ∧ name ≠ ".."))

theorem IsName.ne_empty {name : String} (h : IsName name) : name ≠ "" := by
  rintro rfl
  exact absurd h.2.1 (by decide)

/-! ### Parts -/

theorem splitSlash_of_notMem {cs : List Char} (h : '/' ∉ cs) : splitSlash cs = [cs] := by
  induction cs with
  | nil => rfl
  | cons c cs ih =>
    rw [List.mem_cons, not_or] at h
    simp [splitSlash, Ne.symm h.1, ih h.2]

theorem splitSlash_ne_nil (cs : List Char) : splitSlash cs ≠ [] := by
  cases cs with
  | nil => simp [splitSlash]
  | cons c cs =>
    simp only [splitSlash]
    split
    · simp
    · split <;> simp

theorem splitSlash_append (cs ds : List Char) :
    splitSlash (cs ++ '/' :: ds) = splitSlash cs ++ splitSlash ds := by
  induction cs with
  | nil => simp [splitSlash]
  | cons c cs ih =>
    by_cases hc : c = '/'
    · simp [splitSlash, hc, ih]
    · simp only [List.cons_append, splitSlash, hc, if_false, ih]
      cases h : splitSlash cs with
      | nil => exact absurd h (splitSlash_ne_nil cs)
      | cons part parts => rfl

theorem parts_append (front back : String) :
    parts (front ++ "/" ++ back) = parts front ++ parts back := by
  have htext : (front ++ "/" ++ back).toList = front.toList ++ '/' :: back.toList := by
    simp [String.toList_append]
  rw [parts, htext, splitSlash_append, List.map_append]
  rfl

theorem parts_of_isName {name : String} (h : IsName name) : parts name = [name] := by
  simp [parts, splitSlash_of_notMem h.1]

theorem parts_append_slash (front : String) : parts (front ++ "/") = parts front ++ [""] := by
  simpa [parts, splitSlash] using parts_append front ""

theorem endsWith_slash {dir : String} (h : dir.endsWith "/" = true) :
    ∃ front, dir = front ++ "/" := by
  rw [String.endsWith_eq_endsWith_toSlice, String.Slice.endsWith_string_iff] at h
  obtain ⟨front, hfront⟩ := h
  refine ⟨String.ofList front, String.toList_inj.1 ?_⟩
  simpa [String.toList_append] using hfront.symm

/-- The parts that a name in the directory comes behind. -/
def dirParts (dir : String) : List String :=
  if dir = "" || dir.endsWith "/" then (parts dir).dropLast else parts dir

theorem parts_join (dir : String) {name : String} (h : IsName name) :
    parts (join dir name) = dirParts dir ++ [name] := by
  unfold join dirParts
  by_cases hempty : dir = ""
  · subst hempty
    have hparts : parts "" = [""] := rfl
    simpa [hparts] using parts_of_isName h
  · by_cases hslash : dir.endsWith "/" = true
    · obtain ⟨front, rfl⟩ := endsWith_slash hslash
      simp [hempty, hslash, parts_append_slash, parts_append, parts_of_isName h]
    · simp [hempty, hslash, parts_append, parts_of_isName h]

theorem join_right_inj {dir name name' : String} (h : IsName name) (h' : IsName name') :
    join dir name = join dir name' ↔ name = name' := by
  constructor
  · intro heq
    have hparts := congrArg parts heq
    rw [parts_join dir h, parts_join dir h'] at hparts
    simpa using hparts
  · exact fun heq => heq ▸ rfl

/-! ### The last part -/

theorem trim_append {name : String} (ps : List String) (h : isIdle name = false) :
    trim (ps ++ [name]) = ps ++ [name] := by
  cases ps with
  | nil => rfl
  | cons p ps => simp [trim, h]

theorem fileName?_join (dir : String) {name : String} (h : IsName name) :
    fileName? (join dir name) = some name := by
  simp [fileName?, parts_join dir h, trim_append _ h.2.1, h.2.1, h.2.2]

theorem stem_join (dir : String) {name : String} (h : IsName name) :
    stem (join dir name) = (splitName name).1 := by
  simp [stem, fileName?_join dir h]

theorem extension?_join (dir : String) {name : String} (h : IsName name) :
    extension? (join dir name) = (splitName name).2 := by
  simp [extension?, fileName?_join dir h]

/-- The directory around what is in a directory, as its paths say it. -/
def around (dir : String) : String :=
  if dirParts dir = [] then "" else ofParts (trim (dirParts dir))

theorem parent?_join (dir : String) {name : String} (h : IsName name) :
    parent? (join dir name) = some (around dir) := by
  rw [parent?, parts_join dir h, trim_append _ h.2.1, around]
  cases dirParts dir with
  | nil => simp [h.ne_empty]
  | cons p ps =>
    have hdrop : (p :: ps ++ [name]).dropLast = p :: ps := List.dropLast_concat
    cases ps <;> exact congrArg (fun parts => some (ofParts (trim parts))) hdrop

/-- A name with an extension is its stem, a dot and the extension. -/
theorem eq_of_splitName {name ext : String} (h : (splitName name).2 = some ext) :
    name = (splitName name).1 ++ "." ++ ext := by
  unfold splitName at h ⊢
  have hsplit := List.takeWhile_append_dropWhile (p := (· ≠ '.')) (l := name.toList.reverse)
  have hdot := List.head?_dropWhile_not (· ≠ '.') name.toList.reverse
  cases hdrop : name.toList.reverse.dropWhile (· ≠ '.') with
  | nil => simp only [hdrop, reduceCtorEq] at h
  | cons c stem =>
    cases stem with
    | nil => simp only [hdrop, reduceCtorEq] at h
    | cons d stem =>
      simp only [hdrop, List.head?_cons, Option.some.injEq, decide_eq_false_iff_not, not_not]
        at h hsplit hdot ⊢
      subst hdot
      have htext := congrArg List.reverse hsplit
      rw [List.reverse_reverse] at htext
      refine String.toList_inj.1 (htext.symm.trans ?_)
      rw [← h]
      simp [String.toList_append]

/-- Texts with different ends are different. -/
theorem append_ne_append {back back' : String} {c d : Char} (h : back.toList.getLast? = some c)
    (h' : back'.toList.getLast? = some d) (hne : c ≠ d) (front front' : String) :
    front ++ back ≠ front' ++ back' := by
  intro heq
  have hlast := congrArg (fun text => text.toList.getLast?) heq
  simp only [String.toList_append, List.getLast?_append, h, h'] at hlast
  exact hne (Option.some.inj hlast)

/-- A stem with a suffix behind it that does not end in a dot. -/
theorem isName_append {stem suffix : String} {c : Char} (hstem : '/' ∉ stem.toList)
    (hsuffix : '/' ∉ suffix.toList) (hlast : suffix.toList.getLast? = some c) (hc : c ≠ '.') :
    IsName (stem ++ suffix) := by
  have hend : (stem ++ suffix).toList.getLast? = some c := by
    rw [String.toList_append, List.getLast?_append, hlast]
    rfl
  have hne {other : String} (h : other.toList.getLast? ≠ some c) : stem ++ suffix ≠ other :=
    fun heq => h (heq ▸ hend)
  have hidle : isIdle (stem ++ suffix) = false := by
    rw [isIdle, Bool.or_eq_false_iff, decide_eq_false_iff_not, decide_eq_false_iff_not]
    exact ⟨hne (by simp), hne (by simpa using hc.symm)⟩
  refine ⟨?_, hidle, hne (by simpa using hc.symm)⟩
  rw [String.toList_append, List.mem_append, not_or]
  exact ⟨hstem, hsuffix⟩

/-! ### Characters of parts -/

theorem slash_notMem_splitSlash {cs part : List Char} (h : part ∈ splitSlash cs) : '/' ∉ part := by
  induction cs generalizing part with
  | nil =>
    obtain rfl := List.mem_singleton.1 h
    simp
  | cons c cs ih =>
    rw [splitSlash] at h
    by_cases hc : c = '/'
    · rw [if_pos hc] at h
      rcases List.mem_cons.1 h with rfl | h
      · simp
      · exact ih h
    · rw [if_neg hc] at h
      cases hsplit : splitSlash cs with
      | nil => exact absurd hsplit (splitSlash_ne_nil cs)
      | cons first rest =>
        rw [hsplit] at h ih
        rcases List.mem_cons.1 h with rfl | h
        · simpa [eq_comm, hc] using ih List.mem_cons_self
        · exact ih (List.mem_cons_of_mem _ h)

theorem parts_ne_nil (path : String) : parts path ≠ [] := by
  simp [parts, splitSlash_ne_nil]

theorem slash_notMem_parts {path part : String} (h : part ∈ parts path) : '/' ∉ part.toList := by
  obtain ⟨cs, hcs, rfl⟩ := List.mem_map.1 h
  rw [String.toList_ofList]
  exact slash_notMem_splitSlash hcs

theorem mem_parts_of_mem_dirParts {dir part : String} (h : part ∈ dirParts dir) :
    part ∈ parts dir := by
  unfold dirParts at h
  split at h
  · exact List.mem_of_mem_dropLast h
  · exact h

/-! ### Idle parts at the end -/

/-- Taking away what satisfies a test at the end takes away nothing else. -/
theorem exists_eq_dropWhile_append {α : Type} (p : α → Bool) (l : List α) :
    ∃ tail, l = (l.reverse.dropWhile p).reverse ++ tail ∧ ∀ a ∈ tail, p a = true := by
  refine ⟨(l.reverse.takeWhile p).reverse, ?_, ?_⟩
  · rw [← List.reverse_append, List.takeWhile_append_dropWhile, List.reverse_reverse]
  · intro a ha
    exact List.all_eq_true.1 List.all_takeWhile a (List.mem_reverse.1 ha)

theorem exists_eq_trim_append (ps : List String) :
    ∃ tail, ps = trim ps ++ tail ∧ ∀ part ∈ tail, isIdle part = true := by
  cases ps with
  | nil => exact ⟨[], rfl, by simp⟩
  | cons first rest =>
    obtain ⟨tail, hrest, htail⟩ := exists_eq_dropWhile_append isIdle rest
    exact ⟨tail, congrArg (first :: ·) hrest, htail⟩

theorem head?_trim (ps : List String) : (trim ps).head? = ps.head? := by
  cases ps <;> rfl

/-- Behind the first one, no part at the end is idle. -/
theorem isIdle_of_trim_eq {ps front : List String} {last : String} (h : trim ps = front ++ [last])
    (hne : front ≠ []) : isIdle last = false := by
  cases ps with
  | nil => simp [trim] at h
  | cons first rest =>
    cases front with
    | nil => exact absurd rfl hne
    | cons f front =>
      rw [trim, List.cons_append, List.cons.injEq] at h
      have hlast := congrArg List.reverse h.2
      rw [List.reverse_reverse, List.reverse_append] at hlast
      have hhead := List.head?_dropWhile_not isIdle rest.reverse
      rw [hlast] at hhead
      simpa using hhead

/-! ### The directory around -/

theorem parts_ofParts {ps : List String} (hne : ps ≠ []) (hroot : ps ≠ [""])
    (h : ∀ part ∈ ps, '/' ∉ part.toList) : parts (ofParts ps) = ps := by
  have hjoin : ofParts ps = String.intercalate "/" ps := by
    unfold ofParts
    split
    · exact absurd rfl hroot
    · rfl
  rw [hjoin]
  clear hjoin hroot
  induction ps with
  | nil => exact absurd rfl hne
  | cons first rest ih =>
    rw [List.forall_mem_cons] at h
    cases rest with
    | nil => simp [parts, String.intercalate_singleton, splitSlash_of_notMem h.1]
    | cons second rest =>
      rw [String.intercalate_cons_cons, parts_append, ih (by simp) h.2]
      simp [parts, splitSlash_of_notMem h.1]

theorem dirParts_around (dir : String) : dirParts (around dir) = trim (dirParts dir) := by
  unfold around
  by_cases hempty : dirParts dir = []
  · rw [if_pos hempty, hempty]
    rfl
  · rw [if_neg hempty]
    by_cases hroot : trim (dirParts dir) = [""]
    · rw [hroot]
      decide +kernel
    · have hne : trim (dirParts dir) ≠ [] := by
        intro heq
        have hhead := head?_trim (dirParts dir)
        rw [heq] at hhead
        exact hempty (List.head?_eq_none_iff.1 hhead.symm)
      have hslash : ∀ part ∈ trim (dirParts dir), '/' ∉ part.toList := by
        intro part hpart
        obtain ⟨tail, heq, -⟩ := exists_eq_trim_append (dirParts dir)
        have hmem : part ∈ dirParts dir := by
          rw [heq]
          exact List.mem_append_left _ hpart
        exact slash_notMem_parts (mem_parts_of_mem_dirParts hmem)
      have hparts := parts_ofParts hne hroot hslash
      have hnonempty : ofParts (trim (dirParts dir)) ≠ "" := by
        intro heq
        rw [heq] at hparts
        exact hroot hparts.symm
      have hend : (ofParts (trim (dirParts dir))).endsWith "/" = false := by
        rw [Bool.eq_false_iff]
        intro hend
        obtain ⟨front, hfront⟩ := endsWith_slash hend
        rw [hfront, parts_append_slash] at hparts
        have hidle := isIdle_of_trim_eq hparts.symm (parts_ne_nil front)
        exact absurd hidle (by decide)
      rw [dirParts, hparts]
      simp [hnonempty, hend]

/-- A path starts at the root if its first part is empty and it is not empty itself. -/
theorem startsWith_slash_iff (path : String) :
    path.startsWith "/" = true ↔ path ≠ "" ∧ (parts path).head? = some "" := by
  rw [String.startsWith_string_iff, ← String.toList_inj.ne, parts]
  cases path.toList with
  | nil => simp
  | cons c cs =>
    by_cases hc : c = '/'
    · simp [splitSlash, hc]
    · rw [splitSlash, if_neg hc]
      cases splitSlash cs <;> simp [Ne.symm hc]

theorem head?_dirParts {dir : String} (h : dirParts dir ≠ []) :
    (dirParts dir).head? = (parts dir).head? := by
  unfold dirParts at h ⊢
  split
  next hcut =>
    rw [if_pos hcut] at h
    cases hparts : parts dir with
    | nil => rfl
    | cons first rest =>
      rw [hparts] at h
      cases rest with
      | nil => simp at h
      | cons second rest => rfl
  next => rfl

theorem dirParts_eq_nil_iff {dir : String} : dirParts dir = [] ↔ dir = "" := by
  constructor
  · intro h
    by_contra hne
    unfold dirParts at h
    by_cases hslash : dir.endsWith "/" = true
    · obtain ⟨front, rfl⟩ := endsWith_slash hslash
      simp [hslash, parts_append_slash, parts_ne_nil] at h
    · simp [hne, hslash, parts_ne_nil] at h
  · rintro rfl
    rfl

theorem startsWith_slash_around (dir : String) :
    (around dir).startsWith "/" = dir.startsWith "/" := by
  by_cases hempty : dirParts dir = []
  · obtain rfl := dirParts_eq_nil_iff.1 hempty
    rfl
  · have hhead : (dirParts (around dir)).head? = (dirParts dir).head? := by
      rw [dirParts_around, head?_trim]
    have hempty' : dirParts (around dir) ≠ [] := by
      intro heq
      rw [heq] at hhead
      exact hempty (List.head?_eq_none_iff.1 hhead.symm)
    rw [head?_dirParts hempty, head?_dirParts hempty'] at hhead
    rw [Bool.eq_iff_iff, startsWith_slash_iff, startsWith_slash_iff, hhead]
    simp [mt dirParts_eq_nil_iff.2 hempty, mt dirParts_eq_nil_iff.2 hempty']

end Jack.Path
