import Jack.Proofs.Listing.Rows

/-!
Listings of trees as text. Read line by line, the listing of a tree is one element: every line is
indented by the elements that are open around it, each element is closed before the one it stands
in, and nothing comes behind the end of the outermost.
-/

namespace Jack

/-! ### Rows in order -/

/-- The tags of the elements open behind a row, innermost first, if `tags` are those in front of it.
A row that is not indented by the elements around it has no place there, nor has one that closes
another element than the innermost. -/
def Row.step? (tags : List String) (row : Row) : Option (List String) :=
  match row.item, tags with
  | .opening tag, tags => if row.depth = tags.length then some (tag :: tags) else none
  | .entry _ _, tags => if row.depth = tags.length then some tags else none
  | .closing _, [] => none
  | .closing tag, inner :: outer =>
    if tag = inner ∧ row.depth = outer.length then some outer else none

/-- The tags of the elements open behind rows. -/
def openTags? (rows : List Row) : Option (List String) := rows.foldlM Row.step? []

/-- How much deeper what follows is. -/
def Item.descent : Item → Int
  | opening _ => 1
  | closing _ => -1
  | entry _ _ => 0

/-- The depth behind rows, counted up and down. -/
def depthAfter : List Row → Int
  | [] => 0
  | row :: rows => row.item.descent + depthAfter rows

/-- The rows are one element. -/
structure IsElement (tag : String) (rows : List Row) : Prop where
  exists_inner : ∃ inner, rows = ⟨0, .opening tag⟩ :: (inner ++ [⟨0, .closing tag⟩])
  /-- Behind the first row and before the last one, the element is open, and it is the outermost. -/
  exists_open : ∀ before after, rows = before ++ after → ∃ tags, openTags? before = some tags ∧
    depthAfter before = tags.length ∧ (before ≠ [] → after ≠ [] → tags.getLast? = some tag)
  closed : openTags? rows = some [] ∧ depthAfter rows = 0

namespace Row

variable {row : Row} {tags tags' base : List String}

theorem length_step? (h : row.step? tags = some tags') :
    (tags'.length : Int) = tags.length + row.item.descent := by
  obtain ⟨depth, item⟩ := row
  cases item with
  | opening tag =>
    obtain ⟨-, rfl⟩ : depth = tags.length ∧ tag :: tags = tags' := by simpa [step?] using h
    simp [Item.descent]
  | entry tag text =>
    obtain ⟨-, rfl⟩ : depth = tags.length ∧ tags = tags' := by simpa [step?] using h
    simp [Item.descent]
  | closing tag =>
    cases tags with
    | nil => simp [step?] at h
    | cons inner outer =>
      obtain ⟨-, rfl⟩ : (tag = inner ∧ depth = outer.length) ∧ outer = tags' := by
        simpa [step?] using h
      rw [Item.descent, List.length_cons]
      omega

/-- A row that stands inside certain elements does not close them. -/
theorem step?_keeps (h : row.step? (tags ++ base) = some tags') (hdepth : base.length ≤ row.depth) :
    ∃ more, tags' = more ++ base := by
  obtain ⟨depth, item⟩ := row
  cases item with
  | opening tag =>
    obtain ⟨-, rfl⟩ : depth = (tags ++ base).length ∧ tag :: (tags ++ base) = tags' := by
      simpa [step?] using h
    exact ⟨tag :: tags, rfl⟩
  | entry tag text =>
    obtain ⟨-, rfl⟩ : depth = (tags ++ base).length ∧ tags ++ base = tags' := by
      simpa [step?] using h
    exact ⟨tags, rfl⟩
  | closing tag =>
    cases tags with
    | nil =>
      -- The innermost element would be one of those, and the row as far out as it.
      cases base with
      | nil => simp [step?] at h
      | cons inner outer =>
        obtain ⟨⟨-, hlength⟩, -⟩ : (tag = inner ∧ depth = outer.length) ∧ outer = tags' := by
          simpa [step?] using h
        simp only [List.length_cons] at hdepth
        omega
    | cons inner outer =>
      obtain ⟨-, rfl⟩ : (tag = inner ∧ depth = (outer ++ base).length) ∧ outer ++ base = tags' := by
        simpa [step?] using h
      exact ⟨outer, rfl⟩

end Row

section

variable {rows : List Row} {tags tags' base : List String}

theorem length_foldlM_step? (h : rows.foldlM Row.step? tags = some tags') :
    (tags'.length : Int) = tags.length + depthAfter rows := by
  induction rows generalizing tags with
  | nil =>
    obtain rfl : tags = tags' := by simpa using h
    simp [depthAfter]
  | cons row rows ih =>
    rw [List.foldlM_cons] at h
    obtain ⟨between, hstep, hrest⟩ := Option.bind_eq_some_iff.1 h
    have hlength := Row.length_step? hstep
    have hlengths := ih hrest
    rw [depthAfter]
    omega

theorem foldlM_step?_keeps (h : rows.foldlM Row.step? (tags ++ base) = some tags')
    (hdepth : ∀ row ∈ rows, base.length ≤ row.depth) : ∃ more, tags' = more ++ base := by
  induction rows generalizing tags with
  | nil =>
    obtain rfl : tags ++ base = tags' := by simpa using h
    exact ⟨tags, rfl⟩
  | cons row rows ih =>
    rw [List.forall_mem_cons] at hdepth
    rw [List.foldlM_cons] at h
    obtain ⟨between, hstep, hrest⟩ := Option.bind_eq_some_iff.1 h
    obtain ⟨more, rfl⟩ := Row.step?_keeps hstep hdepth.1
    exact ih hrest hdepth.2

/-- Rows between two tags, further in than these, are one element if every row has its place. -/
theorem isElement_of_openTags? {tag : String} {inner : List Row}
    (hinner : ∀ row ∈ inner, 1 ≤ row.depth)
    (hclosed : openTags? (⟨0, .opening tag⟩ :: (inner ++ [⟨0, .closing tag⟩])) = some []) :
    IsElement tag (⟨0, .opening tag⟩ :: (inner ++ [⟨0, .closing tag⟩])) := by
  refine ⟨⟨inner, rfl⟩, ?_, hclosed, ?_⟩
  · intro before after hrows
    have hsplit := hclosed
    rw [openTags?, hrows, List.foldlM_append] at hsplit
    obtain ⟨tags, htags, -⟩ := Option.bind_eq_some_iff.1 hsplit
    have hlength := length_foldlM_step? htags
    refine ⟨tags, htags, by simpa using hlength.symm, fun hbefore hafter => ?_⟩
    obtain ⟨first, front, rfl⟩ := List.exists_cons_of_ne_nil hbefore
    obtain ⟨back, last, rfl⟩ := (List.eq_nil_or_concat after).resolve_left hafter
    rw [List.concat_eq_append, List.cons_append, ← List.append_assoc] at hrows
    obtain ⟨rfl, hrest⟩ := List.cons.inj hrows
    have hfront : inner = front ++ back := (List.append_inj' hrest rfl).1
    have hrun : front.foldlM Row.step? ([] ++ [tag]) = some tags := htags
    obtain ⟨more, rfl⟩ := foldlM_step?_keeps hrun fun row hrow =>
      hinner row (hfront ▸ List.mem_append_left back hrow)
    simp
  · have hlength := length_foldlM_step? hclosed
    simpa using hlength.symm

end

/-! ### Lines of trees -/

variable {source : String}

/-- A line opens and closes what its row does. -/
theorem openAfter?_cons {line : Line} {row : Row} (h : line.row? source = some row)
    (tags : List String) (lines : List Line) :
    openAfter? tags (line :: lines) =
      (row.step? tags).bind fun tags' => openAfter? tags' lines := by
  obtain ⟨depth, mark⟩ := line
  obtain ⟨item, hitem, rfl⟩ := Option.map_eq_some_iff.1 h
  cases mark with
  | opening tag =>
    obtain rfl := Option.some.inj hitem
    by_cases hdepth : depth = tags.length <;> simp [openAfter?, Row.step?, hdepth]
  | token t =>
    obtain ⟨text, -, rfl⟩ := Option.map_eq_some_iff.1 hitem
    by_cases hdepth : depth = tags.length <;> simp [openAfter?, Row.step?, hdepth]
  | closing tag =>
    obtain rfl := Option.some.inj hitem
    cases tags with
    | nil => rfl
    | cons inner outer =>
      by_cases hplace : tag = inner ∧ depth = outer.length <;>
        simp [openAfter?, Row.step?, hplace]

theorem openAfter?_eq_foldlM {lines : List Line} {rows : List Row}
    (h : List.Forall₂ (fun line row => line.row? source = some row) lines rows)
    (tags : List String) : openAfter? tags lines = rows.foldlM Row.step? tags := by
  induction h generalizing tags with
  | nil => rfl
  | cons hrow _ ih =>
    rw [openAfter?_cons hrow, List.foldlM_cons]
    simp only [ih]
    rfl

mutual

theorem Outline.le_depth_linesAt (depth : Nat) : ∀ o : Outline,
    ∀ line ∈ linesAt depth o, depth ≤ line.depth
  | .token t => by simp [linesAt]
  | .element tag children => by
    have hchildren := le_depth_childLinesAt (depth + 1) children
    intro line hline
    simp only [linesAt, List.mem_cons, List.mem_append, List.mem_nil_iff, or_false] at hline
    rcases hline with rfl | hline | rfl
    · exact Nat.le_refl depth
    · exact Nat.le_of_succ_le (hchildren line hline)
    · exact Nat.le_refl depth

theorem Outline.le_depth_childLinesAt (depth : Nat) : ∀ os : List Outline,
    ∀ line ∈ childLinesAt depth os, depth ≤ line.depth
  | [] => by simp [childLinesAt]
  | child :: children => by
    intro line hline
    rcases List.mem_append.1 hline with hline | hline
    · exact le_depth_linesAt depth child line hline
    · exact le_depth_childLinesAt depth children line hline

end

theorem exists_rows {lines : List Line} (htagged : ∀ line ∈ lines, line.mark.Tagged)
    (hline : ∀ line ∈ lines, line.mark.OnLine source) {depth : Nat}
    (hdepth : ∀ line ∈ lines, depth ≤ line.depth) :
    ∃ rows, List.Forall₂ (fun line row => line.row? source = some row) lines rows ∧
      ∀ row ∈ rows, IsTag row.item.tag ∧ depth ≤ row.depth := by
  induction lines with
  | nil => exact ⟨[], .nil, by simp⟩
  | cons line lines ih =>
    rw [List.forall_mem_cons] at htagged hline hdepth
    obtain ⟨item, hitem, htag⟩ := htagged.1.exists_item hline.1
    obtain ⟨rows, hrows, hall⟩ := ih htagged.2 hline.2 hdepth.2
    have hrow : line.row? source = some ⟨line.depth, item⟩ := by
      rw [Line.row?, hitem, Option.map_some]
    exact ⟨⟨line.depth, item⟩ :: rows, .cons hrow hrows,
      List.forall_mem_cons.2 ⟨⟨htag, hdepth.1⟩, hall⟩⟩

theorem map_shown_of_forall₂ {lines : List Line} {rows : List Row}
    (h : List.Forall₂ (fun line row => line.row? source = some row) lines rows) :
    lines.map (Line.shown source) = rows.map Row.shown := by
  induction h with
  | nil => rfl
  | cons hrow _ ih => rw [List.map_cons, List.map_cons, Line.shown_of_row? hrow, ih]

/-- The lines of an element have rows that are one element. -/
theorem Outline.exists_isElement {tag : String} {children : List Outline}
    (htagged : ∀ line ∈ (element tag children).lines, line.mark.Tagged)
    (hline : ∀ line ∈ (element tag children).lines, line.mark.OnLine source) :
    ∃ rows, (element tag children).lines.map (Line.shown source) = rows.map Row.shown ∧
      (∀ row ∈ rows, IsTag row.item.tag) ∧ IsElement tag rows := by
  have hclosed := openAfter?_lines (element tag children)
  rw [lines, linesAt] at htagged hline hclosed ⊢
  have hinner : childLinesAt 1 children ⊆
      ⟨0, .opening tag⟩ :: (childLinesAt 1 children ++ [⟨0, .closing tag⟩]) := by simp
  obtain ⟨inner, hrows, hall⟩ := exists_rows (fun line h => htagged line (hinner h))
    (fun line h => hline line (hinner h)) (le_depth_childLinesAt 1 children)
  have htag : IsTag tag := by
    obtain ⟨item, hitem, htag⟩ := (htagged _ List.mem_cons_self).exists_item
      (hline _ List.mem_cons_self)
    obtain rfl := Option.some.inj hitem
    exact htag
  have hforall : List.Forall₂ (fun line row => line.row? source = some row)
      (⟨0, .opening tag⟩ :: (childLinesAt 1 children ++ [⟨0, .closing tag⟩]))
      (⟨0, .opening tag⟩ :: (inner ++ [⟨0, .closing tag⟩])) :=
    .cons rfl (List.rel_append hrows (.cons rfl .nil))
  refine ⟨_, map_shown_of_forall₂ hforall, ?_, ?_⟩
  · intro row hrow
    rw [List.mem_cons, List.mem_append, List.mem_singleton] at hrow
    rcases hrow with rfl | hrow | rfl
    · exact htag
    · exact (hall row hrow).1
    · exact htag
  · apply isElement_of_openTags? fun row hrow => (hall row hrow).2
    rw [openTags?, ← openAfter?_eq_foldlM hforall, hclosed]

/-- The listing of the tree of a source is made up of lines that can each be read in one way, as a
tag or as a token, and they are one element, the class. -/
theorem listTree?_isElement {unit : String} {decl : ClassDecl}
    (h : parseSource unit source = .ok decl) :
    ∃ (tree : String) (rows : List Row), listTree? source decl = some tree ∧
      textLines tree = rows.map Row.shown ++ [[]] ∧
      (∀ row ∈ rows, readRow? row.shown = some row) ∧ IsElement "class" rows := by
  obtain ⟨tokens, htokens, hdecl⟩ := tokens_of_parseSource h
  have htagged : ∀ line ∈ (Outline.classDecl decl).lines, line.mark.Tagged := by
    rw [Outline.lines]
    exact (Outline.classDecl_tagged decl).linesAt 0 _
  have honLine : ∀ line ∈ (Outline.classDecl decl).lines, line.mark.OnLine source :=
    onLine_classDecl fun t ht =>
      liesIn_of_tokenize htokens (List.mem_of_mem_dropLast (hdecl ▸ ht))
  obtain ⟨tree, htree, hlines⟩ := exists_textLines_writeLines? honLine
  rw [← listTree?_eq] at htree
  obtain ⟨rows, hshown, htags, helement⟩ := Outline.exists_isElement htagged honLine
  refine ⟨tree, rows, htree, ?_, fun row hrow => readRow?_shown (htags row hrow), helement⟩
  rw [hlines]
  exact congrArg (· ++ [[]]) hshown

/-- The listing of the function with markup in a string. -/
theorem listTree?_isElement_markup :
    parseSource "A" markupSource = .ok markupClass ∧
    ∃ (tree : String) (rows : List Row), listTree? markupSource markupClass = some tree ∧
      textLines tree = rows.map Row.shown ++ [[]] ∧
      (∀ row ∈ rows, readRow? row.shown = some row) ∧ IsElement "class" rows :=
  ⟨parseSource_markup, listTree?_isElement parseSource_markup⟩

end Jack
