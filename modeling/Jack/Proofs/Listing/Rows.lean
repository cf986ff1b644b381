import Jack.Proofs.Listing.Agreement

/-!
Lines of listings read back. What a line shows can be told from its characters alone: how far it is
indented, whether it opens an element, closes one or shows a token, and the text of the token, in
which no character is left that could be taken for that of a tag.
-/

namespace Jack

/-! ### Escaped texts -/

/-- The characters that are written as these. There are none for a bare markup character. -/
def unescape? : List Char → Option (List Char)
  | [] => some []
  | '&' :: 'l' :: 't' :: ';' :: cs => (unescape? cs).map ('<' :: ·)
  | '&' :: 'g' :: 't' :: ';' :: cs => (unescape? cs).map ('>' :: ·)
  | '&' :: 'a' :: 'm' :: 'p' :: ';' :: cs => (unescape? cs).map ('&' :: ·)
  | c :: cs => if c = '<' ∨ c = '>' ∨ c = '&' then none else (unescape? cs).map (c :: ·)

theorem toList_escapeMarkup_of_ne {c : Char} (hless : c ≠ '<') (hgreater : c ≠ '>')
    (hamp : c ≠ '&') : (escapeMarkup c).toList = [c] := by
  unfold escapeMarkup
  split
  · exact absurd rfl hless
  · exact absurd rfl hgreater
  · exact absurd rfl hamp
  · simp

theorem unescape?_escapeMarkup (c : Char) (cs : List Char) :
    unescape? ((escapeMarkup c).toList ++ cs) = (unescape? cs).map (c :: ·) := by
  by_cases hless : c = '<'
  · subst hless
    simp [escapeMarkup, unescape?]
  by_cases hgreater : c = '>'
  · subst hgreater
    simp [escapeMarkup, unescape?]
  by_cases hamp : c = '&'
  · subst hamp
    simp [escapeMarkup, unescape?]
  rw [toList_escapeMarkup_of_ne hless hgreater hamp]
  simp [unescape?, hless, hgreater, hamp]

/-- A text can be told from its escaped form, whatever characters there are in it. -/
theorem unescape?_escapeText (text : String) :
    unescape? (escapeText text).toList = some text.toList := by
  rw [toList_escapeText]
  induction text.toList with
  | nil => rfl
  | cons c cs ih => rw [List.flatMap_cons, unescape?_escapeMarkup, ih, Option.map_some]

theorem less_notMem_escapeText (text : String) : '<' ∉ (escapeText text).toList := by
  intro hmem
  rw [toList_escapeText] at hmem
  obtain ⟨c, -, hmem⟩ := List.mem_flatMap.1 hmem
  revert hmem
  unfold escapeMarkup
  split
  · decide
  · decide
  · decide
  next hless _ _ =>
    intro hmem
    have hc : c = '<' := by simpa [eq_comm] using hmem
    exact hless hc

/-! ### What a line shows -/

/-- A line shows the tag that opens or closes an element, or a token by its tag and its text. -/
inductive Item where
  | opening (tag : String)
  | closing (tag : String)
  | entry (tag text : String)
deriving DecidableEq, Repr

/-- Tags are words without digits. -/
def IsTag (tag : String) : Prop := ∀ c ∈ tag.toList, isLetter c = true

instance : DecidablePred IsTag := fun tag =>
  List.decidableBAll (fun c => isLetter c = true) tag.toList

namespace Item

def tag : Item → String
  | opening tag | closing tag | entry tag _ => tag

/-- The characters of a line, without its indentation. -/
def shown : Item → List Char
  | opening tag => '<' :: (tag.toList ++ ['>'])
  | closing tag => '<' :: '/' :: (tag.toList ++ ['>'])
  | entry tag text =>
    '<' :: (tag.toList ++ '>' :: ' ' :: ((escapeText text).toList ++
      ' ' :: '<' :: '/' :: (tag.toList ++ ['>'])))

end Item

/-- Reads what comes behind the slash of a closing tag. -/
def readClosing? (cs : List Char) : Option Item :=
  let tag := cs.takeWhile (· ≠ '>')
  if cs = tag ++ ['>'] then some (.closing (String.ofList tag)) else none

/-- Reads what comes behind the bracket of an opening tag. The text of a token goes up to the next
tag, which has to be the one that closes its element. -/
def readOpened? (cs : List Char) : Option Item :=
  let tag := cs.takeWhile (· ≠ '>')
  match cs.dropWhile (· ≠ '>') with
  | ['>'] => some (.opening (String.ofList tag))
  | '>' :: ' ' :: rest =>
    let text := (rest.takeWhile (· ≠ '<')).dropLast
    if rest = text ++ ' ' :: '<' :: '/' :: (tag ++ ['>']) then
      (unescape? text).map fun text => .entry (String.ofList tag) (String.ofList text)
    else none
  | _ => none

/-- Reads a line without indentation. -/
def readItem? : List Char → Option Item
  | '<' :: '/' :: cs => readClosing? cs
  | '<' :: cs => readOpened? cs
  | _ => none

section

variable {stop : Char} {front : List Char} (h : stop ∉ front) (rest : List Char)

include h

theorem takeWhile_append_stop : (front ++ stop :: rest).takeWhile (· ≠ stop) = front := by
  have hfront : ∀ c ∈ front, (c ≠ stop : Bool) = true := by
    intro c hc
    exact decide_eq_true (fun heq => h (heq ▸ hc))
  rw [List.takeWhile_append_of_pos hfront, List.takeWhile_cons_of_neg (by simp), List.append_nil]

theorem dropWhile_append_stop : (front ++ stop :: rest).dropWhile (· ≠ stop) = stop :: rest := by
  have hfront : ∀ c ∈ front, (c ≠ stop : Bool) = true := by
    intro c hc
    exact decide_eq_true (fun heq => h (heq ▸ hc))
  rw [List.dropWhile_append_of_pos hfront, List.dropWhile_cons_of_neg (by simp)]

end

theorem IsTag.notMem {tag : String} (h : IsTag tag) {c : Char} (hc : isLetter c = false) :
    c ∉ tag.toList := by
  intro hmem
  simp [h c hmem] at hc

/-- A tag does not look like one that closes. -/
theorem IsTag.readItem? {tag : String} (h : IsTag tag) (rest : List Char) :
    readItem? ('<' :: (tag.toList ++ '>' :: rest)) = readOpened? (tag.toList ++ '>' :: rest) := by
  have hslash : '/' ∉ tag.toList := h.notMem (by decide)
  cases hcs : tag.toList with
  | nil => rfl
  | cons c cs =>
    have hne : c ≠ '/' := by
      rintro rfl
      simp [hcs] at hslash
    simp [Jack.readItem?, hne]

/-- A line shows one thing only. -/
theorem readItem?_shown {item : Item} (h : IsTag item.tag) : readItem? item.shown = some item := by
  have hbracket {tag : String} (htag : IsTag tag) : '>' ∉ tag.toList := htag.notMem (by decide)
  cases item with
  | opening tag =>
    have htag : IsTag tag := h
    rw [Item.shown, htag.readItem?, readOpened?, takeWhile_append_stop (hbracket htag),
      dropWhile_append_stop (hbracket htag)]
    simp
  | closing tag =>
    have htag : IsTag tag := h
    have hread : readItem? (Item.closing tag).shown = readClosing? (tag.toList ++ ['>']) := rfl
    rw [hread, readClosing?, takeWhile_append_stop (hbracket htag)]
    simp
  | entry tag text =>
    have htag : IsTag tag := h
    -- Up to the bracket of the closing tag there is the text and one blank.
    have htext : '<' ∉ (escapeText text).toList ++ [' '] := by
      simp [less_notMem_escapeText]
    have hrest := takeWhile_append_stop htext ('/' :: (tag.toList ++ ['>']))
    rw [List.append_assoc, List.singleton_append] at hrest
    rw [Item.shown, htag.readItem?, readOpened?, takeWhile_append_stop (hbracket htag),
      dropWhile_append_stop (hbracket htag)]
    simp only [hrest, List.dropLast_concat, if_true, unescape?_escapeText, Option.map_some,
      String.ofList_toList]

/-! ### Rows -/

/-- A line of a listing: the number of elements around it, and what it shows. -/
structure Row where
  depth : Nat
  item : Item
deriving DecidableEq, Repr

/-- The characters of a line: two blanks for each element around it, and then what it shows. -/
def Row.shown (row : Row) : List Char := List.replicate (2 * row.depth) ' ' ++ row.item.shown

/-- Reads a line, which has to be indented by an even number of blanks. -/
def readRow? (line : List Char) : Option Row :=
  let blanks := (line.takeWhile (· = ' ')).length
  if blanks % 2 = 0 then (readItem? (unindent line)).map (Row.mk (blanks / 2)) else none

theorem Item.exists_shown (item : Item) : ∃ cs, item.shown = '<' :: cs := by
  cases item <;> exact ⟨_, rfl⟩

theorem readRow?_shown {row : Row} (h : IsTag row.item.tag) : readRow? row.shown = some row := by
  obtain ⟨cs, hcs⟩ := row.item.exists_shown
  have hblanks : ∀ c ∈ List.replicate (2 * row.depth) ' ', (c = ' ' : Bool) = true := by
    intro c hc
    exact decide_eq_true (List.eq_of_mem_replicate hc)
  have htake : row.shown.takeWhile (· = ' ') = List.replicate (2 * row.depth) ' ' := by
    rw [Row.shown, hcs, List.takeWhile_append_of_pos hblanks]
    simp
  have hdrop : unindent row.shown = row.item.shown := by
    rw [unindent, Row.shown, List.dropWhile_append_of_pos hblanks, hcs]
    simp
  simp [readRow?, htake, hdrop, readItem?_shown h]

/-! ### Lines as rows -/

/-- What a mark shows, if it is a tag or a token of the source. -/
def Mark.item? (source : String) : Mark → Option Item
  | opening tag => some (.opening tag)
  | closing tag => some (.closing tag)
  | token t => (t.text? source).map (.entry t.kind.tag)

def Line.row? (source : String) (line : Line) : Option Row :=
  (line.mark.item? source).map (Row.mk line.depth)

variable {source : String}

theorem toList_indentation (depth : Nat) :
    (indentation depth).toList = List.replicate (2 * depth) ' ' := by
  induction depth with
  | zero => simp [indentation]
  | succ depth ih =>
    have hsplit : indentation (depth + 1) = "  " ++ indentation depth := by
      simp [indentation, List.replicate_succ]
    rw [hsplit, String.toList_append, ih, Nat.mul_succ, Nat.add_comm, List.replicate_add]
    rfl

theorem Mark.shown_of_item? {mark : Mark} {item : Item} (h : mark.item? source = some item) :
    mark.shown source = item.shown := by
  cases mark with
  | opening tag =>
    obtain rfl := Option.some.inj h
    simp [Mark.shown, Mark.text?, Item.shown]
  | closing tag =>
    obtain rfl := Option.some.inj h
    simp [Mark.shown, Mark.text?, Item.shown]
  | token t =>
    obtain ⟨text, htext, rfl⟩ := Option.map_eq_some_iff.1 h
    simp [Mark.shown, Mark.text?, Item.shown, htext]

theorem Line.shown_of_row? {line : Line} {row : Row} (h : line.row? source = some row) :
    line.shown source = row.shown := by
  obtain ⟨item, hitem, rfl⟩ := Option.map_eq_some_iff.1 h
  rw [Line.shown, Row.shown, toList_indentation, Mark.shown_of_item? hitem]

theorem Kind.isTag_tag (kind : Kind) : IsTag kind.tag := by
  cases kind <;> simp only [Kind.tag] <;> decide

theorem Mark.Tagged.exists_item {mark : Mark} (h : mark.Tagged) (hline : mark.OnLine source) :
    ∃ item, mark.item? source = some item ∧ IsTag item.tag := by
  have htags : ∀ tag ∈ elementTags, IsTag tag := by decide
  cases mark with
  | opening tag => exact ⟨_, rfl, htags tag h⟩
  | closing tag => exact ⟨_, rfl, htags tag h⟩
  | token t =>
    obtain ⟨_, _, htext, -⟩ := hline
    obtain ⟨text, htext, -⟩ := Option.bind_eq_some_iff.1 htext
    exact ⟨.entry t.kind.tag text, by simp [Mark.item?, htext], t.kind.isTag_tag⟩

end Jack
