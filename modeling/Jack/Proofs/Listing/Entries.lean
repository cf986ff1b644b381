import Jack.Proofs.Listing.Rows

/-!
Listings of tokens read back. A listing tells the tags and the texts of the tokens, whatever stands
in the string constants, so sources that differ in one of these have different listings.
-/

namespace Jack

/-! ### Lines of tokens -/

/-- A token as far as a listing shows it: its tag and its text. -/
def Token.label (source : String) (t : Token) : String × Option String :=
  (t.kind.tag, t.text? source)

def Item.entry? : Item → Option (String × String)
  | entry tag text => some (tag, text)
  | _ => none

/-- The line of a token with this tag and text. -/
def entryLine (e : String × String) : List Char := (Item.entry e.1 e.2).shown

/-- Reads the tags and the texts off the lines of a listing. -/
def readEntries? (listing : String) : Option (List (String × String)) :=
  ((endedLines listing).mapM readItem?).map (List.filterMap Item.entry?)

variable {source : String} {tokens : List Token}

theorem Token.LiesIn.exists_entry {t : Token} (h : t.LiesIn source) :
    ∃ e : String × String, t.label source = (e.1, some e.2) ∧ IsTag e.1 ∧
      (Mark.token t).shown source = entryLine e := by
  obtain ⟨text, htext, -⟩ := h.text?
  refine ⟨(t.kind.tag, text), by rw [Token.label, htext], t.kind.isTag_tag, ?_⟩
  exact Mark.shown_of_item? (by simp [Mark.item?, htext])

theorem exists_entries (h : ∀ t ∈ tokens, t.LiesIn source) :
    ∃ entries : List (String × String),
      tokens.map (Token.label source) = entries.map (fun e => (e.1, some e.2)) ∧
      (∀ e ∈ entries, IsTag e.1) ∧
      tokens.map (fun t => (Mark.token t).shown source) = entries.map entryLine := by
  induction tokens with
  | nil => exact ⟨[], rfl, by simp, rfl⟩
  | cons t tokens ih =>
    rw [List.forall_mem_cons] at h
    obtain ⟨e, hlabel, htag, hline⟩ := h.1.exists_entry
    obtain ⟨entries, hlabels, htags, hlines⟩ := ih h.2
    refine ⟨e :: entries, ?_, List.forall_mem_cons.2 ⟨htag, htags⟩, ?_⟩
    · rw [List.map_cons, List.map_cons, hlabel, hlabels]
    · rw [List.map_cons, List.map_cons, hline, hlines]

/-! ### Whole listings -/

/-- The end of a source is shown alike in all of them. -/
theorem label_getLast (h : tokenize source = .ok tokens) :
    tokens.map (Token.label source) =
      tokens.dropLast.map (Token.label source) ++ [("eos", some "")] := by
  obtain ⟨front, last, rfl, hlast, -⟩ := tokenize_lexemes h
  have hlabel : last.label source = ("eos", some "") := by
    have hmem : last ∈ front ++ [last] := by simp
    obtain ⟨lexeme, hfragment, hspells⟩ := liesIn_of_tokenize h hmem
    rw [hlast] at hspells
    obtain rfl : lexeme = [] := hspells
    simp [Token.label, Token.text?, hlast, hfragment, Kind.tag]
  simp [hlabel]

theorem textLines_injective : Function.Injective textLines := by
  intro text text' h
  have hjoined := congrArg ([('\n')].intercalate ·) h
  simpa [textLines, List.intercalate_splitOn, String.toList_inj] using hjoined

/-- Every line shows what it was written for. -/
theorem mapM_readItem?_shown {items : List Item} (h : ∀ item ∈ items, IsTag item.tag) :
    (items.map Item.shown).mapM readItem? = some items := by
  induction items with
  | nil => rfl
  | cons item items ih =>
    rw [List.forall_mem_cons] at h
    simp [readItem?_shown h.1, ih h.2]

/-- What is read off the lines of tokens between the outer tags. -/
theorem readEntries?_of_textLines {listing : String} {entries : List (String × String)}
    (h : ∀ e ∈ entries, IsTag e.1)
    (hlines : textLines listing =
      "<tokens>".toList :: entries.map entryLine ++ ["</tokens>".toList, []]) :
    readEntries? listing = some entries := by
  let inner : List Item := entries.map fun e => .entry e.1 e.2
  let items : List Item := .opening "tokens" :: (inner ++ [.closing "tokens"])
  have htags : ∀ item ∈ items, IsTag item.tag := by
    have houter : IsTag "tokens" := by decide
    intro item hitem
    rw [List.mem_cons, List.mem_append, List.mem_singleton] at hitem
    rcases hitem with rfl | hitem | rfl
    · exact houter
    · obtain ⟨e, he, rfl⟩ := List.mem_map.1 hitem
      exact h e he
    · exact houter
  have hended : endedLines listing = items.map Item.shown := by
    have hsplit : textLines listing = items.map Item.shown ++ [[]] := by
      rw [hlines]
      simp [items, inner, entryLine, Item.shown]
    rw [endedLines, hsplit, List.dropLast_concat]
  have hentries : items.filterMap Item.entry? = entries := by
    have hinner : inner.filterMap Item.entry? = entries := by
      rw [List.filterMap_map]
      exact List.filterMap_some
    calc
      items.filterMap Item.entry? = (inner ++ [Item.closing "tokens"]).filterMap Item.entry? :=
        rfl
      _ = inner.filterMap Item.entry? ++ [] := List.filterMap_append
      _ = entries := by rw [List.append_nil, hinner]
  rw [readEntries?, hended, mapM_readItem?_shown htags, Option.map_some, hentries]

/-- A source that can be tokenized has a listing, and its entries can be read off the listing. -/
theorem exists_listing (h : tokenize source = .ok tokens) :
    ∃ (listing : String) (entries : List (String × String)),
      listTokens? source tokens = some listing ∧
      tokens.dropLast.map (Token.label source) = entries.map (fun e => (e.1, some e.2)) ∧
      readEntries? listing = some entries ∧
      textLines listing =
        "<tokens>".toList :: entries.map entryLine ++ ["</tokens>".toList, []] := by
  have hlies : ∀ t ∈ tokens, t.LiesIn source := fun t ht => liesIn_of_tokenize h ht
  obtain ⟨listing, hlisting, hlines⟩ := exists_textLines_listTokens? hlies
  obtain ⟨entries, hlabels, htags, hshown⟩ :=
    exists_entries fun t ht => hlies t (List.mem_of_mem_dropLast ht)
  rw [filter_eq_dropLast h, hshown] at hlines
  exact ⟨listing, entries, hlisting, hlabels, readEntries?_of_textLines htags hlines, hlines⟩

/-- The listings of two sources are the same exactly if their tokens are as many and agree, one by
one, in tag and text. From a listing the tags and texts of all tokens but the end of the source can
be read. -/
theorem listTokens?_eq_iff {source' : String} {tokens' : List Token}
    (h : tokenize source = .ok tokens) (h' : tokenize source' = .ok tokens') :
    ∃ (listing listing' : String) (entries : List (String × String)),
      listTokens? source tokens = some listing ∧ listTokens? source' tokens' = some listing' ∧
      readEntries? listing = some entries ∧
      entries.map (fun e => (e.1, some e.2)) =
        tokens.dropLast.map (fun t => (t.kind.tag, t.text? source)) ∧
      (listing = listing' ↔ List.Forall₂ (fun t t' =>
        t.kind.tag = t'.kind.tag ∧ t.text? source = t'.text? source') tokens tokens') := by
  obtain ⟨listing, entries, hlisting, hlabels, hread, hlines⟩ := exists_listing h
  obtain ⟨listing', entries', hlisting', hlabels', hread', hlines'⟩ := exists_listing h'
  refine ⟨listing, listing', entries, hlisting, hlisting', hread, hlabels.symm, ?_⟩
  have hentries : listing = listing' ↔ entries = entries' := by
    constructor
    · intro heq
      rw [heq, hread'] at hread
      exact (Option.some.inj hread).symm
    · intro heq
      apply textLines_injective
      rw [hlines, hlines', heq]
  have hinjective : Function.Injective fun e : String × String => (e.1, some e.2) := by
    intro e e' heq
    simpa [Prod.ext_iff] using heq
  calc
    listing = listing' ↔ entries = entries' := hentries
    _ ↔ tokens.dropLast.map (Token.label source) = tokens'.dropLast.map (Token.label source') := by
      rw [hlabels, hlabels', hinjective.list_map.eq_iff]
    _ ↔ tokens.map (Token.label source) = tokens'.map (Token.label source') := by
      rw [label_getLast h, label_getLast h', List.append_left_inj]
    _ ↔ List.Forall₂ (fun t t' => t.label source = t'.label source') tokens tokens' := by
      rw [← List.forall₂_eq_eq_eq, List.forall₂_map_left_iff, List.forall₂_map_right_iff]
    _ ↔ _ := by simp only [Token.label, Prod.mk.injEq]

/-- A string constant that looks like an escaped one is not mistaken for it. -/
theorem listTokens?_ne_of_entity :
    let source := "\"&lt;\""
    let source' := "\"<\""
    let tokens : List Token := [⟨.string, 0, 6⟩, ⟨.endOfSource, 6, 0⟩]
    let tokens' : List Token := [⟨.string, 0, 3⟩, ⟨.endOfSource, 3, 0⟩]
    tokenize source = .ok tokens ∧ tokenize source' = .ok tokens' ∧
      ∃ listing listing', listTokens? source tokens = some listing ∧
        listTokens? source' tokens' = some listing' ∧ listing ≠ listing' := by
  intro source source' tokens tokens'
  have htokens : tokenize source = .ok tokens ∧ tokenize source' = .ok tokens' := by
    decide +kernel
  obtain ⟨listing, listing', -, hlisting, hlisting', -, -, hiff⟩ :=
    listTokens?_eq_iff htokens.1 htokens.2
  refine ⟨htokens.1, htokens.2, listing, listing', hlisting, hlisting', fun heq => ?_⟩
  have htext : Token.text? ⟨.string, 0, 6⟩ source = Token.text? ⟨.string, 0, 3⟩ source' :=
    (List.forall₂_cons.1 (hiff.1 heq)).1.2
  revert htext
  decide

end Jack
