import LayeredStore.Record.Names
import LayeredStore.SortOrder
import Mathlib.Data.List.Basic

/-! # Orders in text

An order is read by cutting its text at the commas and each piece into words.  All that has to be
known of cutting is that it can be done on both sides of a comma or a blank (`Text.splitAt_append`,
`Text.words_append_blank`).  So the text of an order is read term by term, the blank behind a comma
being no word, and gives the order back if its fields are plain (`SortOrder.ofText_text`).  Plain
fields are all that reading ever gives (`SortOrder.plain_of_ofText`): a word has neither commas nor
blanks, and making its capitals small brings none in.
-/
namespace LayeredStore

namespace Text

/-! ### Pieces and words -/

theorem splitAt_eq_splitOnP (p : Char → Bool) (text : List Char) :
    splitAt p text = text.splitOnP p := by
  induction text with
  | nil => rfl
  | cons c rest ih =>
    rw [splitAt, List.splitOnP_cons_eq_if_modifyHead, ih]
    split
    · rfl
    · cases h : rest.splitOnP p with
      | nil => exact absurd (ih.trans h) (splitAt_ne_nil p rest)
      | cons piece pieces => rfl

theorem splitAt_append {p : Char → Bool} {c : Char} (hc : p c = true) (x y : List Char) :
    splitAt p (x ++ c :: y) = splitAt p x ++ splitAt p y := by
  simp only [splitAt_eq_splitOnP, List.splitOnP_append_cons x y hc]

theorem splitAt_of_forall {p : Char → Bool} {text : List Char} (h : ∀ c ∈ text, p c = false) :
    splitAt p text = [text] := by
  rw [splitAt_eq_splitOnP, List.splitOnP_eq_singleton h]

/-- The pieces are made of the characters that the text is not cut at. -/
theorem mem_of_mem_splitAt {p : Char → Bool} {text piece : List Char}
    (h : piece ∈ splitAt p text) : ∀ c ∈ piece, c ∈ text ∧ p c = false := by
  induction text generalizing piece with
  | nil =>
    rw [splitAt, List.mem_singleton] at h
    subst h
    exact fun _ hc => absurd hc List.not_mem_nil
  | cons d rest ih =>
    have hrest : ∀ {piece}, piece ∈ splitAt p rest → ∀ c ∈ piece, c ∈ d :: rest ∧ p c = false :=
      fun h c hc => (ih h c hc).imp_left (List.mem_cons_of_mem d)
    rw [splitAt] at h
    split at h
    · rcases List.mem_cons.1 h with rfl | h
      · exact fun _ hc => absurd hc List.not_mem_nil
      · exact hrest h
    · next hd =>
      cases hpieces : splitAt p rest with
      | nil => exact absurd hpieces (splitAt_ne_nil p rest)
      | cons first others =>
        rw [hpieces] at h hrest
        rcases List.mem_cons.1 h with rfl | h
        · refine List.forall_mem_cons.2 ⟨⟨List.mem_cons_self, ?_⟩, hrest List.mem_cons_self⟩
          exact Bool.eq_false_iff.2 hd
        · exact hrest (List.mem_cons_of_mem _ h)

theorem words_append_blank {c : Char} (hc : isBlank c = true) (x y : List Char) :
    words (x ++ c :: y) = words x ++ words y := by
  rw [words, splitAt_append hc, List.filter_append, words, words]

theorem words_cons_blank {c : Char} (hc : isBlank c = true) (text : List Char) :
    words (c :: text) = words text :=
  words_append_blank hc [] text

theorem words_of_forall {word : List Char} (hne : word ≠ []) (h : ∀ c ∈ word, isBlank c = false) :
    words word = [word] := by
  rw [words, splitAt_of_forall h]
  simp [hne]

/-- A word is not empty and has no blanks. -/
theorem mem_of_mem_words {text word : List Char} (h : word ∈ words text) :
    word ≠ [] ∧ ∀ c ∈ word, c ∈ text ∧ isBlank c = false := by
  obtain ⟨hpiece, hne⟩ := List.mem_filter.1 h
  exact ⟨by simpa using hne, mem_of_mem_splitAt hpiece⟩

end Text

namespace SortTerm

/-- The field is written as it is stored, and is a word without commas. -/
structure Plain (t : SortTerm) : Prop where
  /-- The field is its own normal name. -/
  normal : normalizeName t.field = t.field
  /-- There is a field. -/
  nonempty : t.field ≠ ""
  /-- Neither commas nor blanks are part of it. -/
  solid : ∀ c ∈ t.field.toList, c ≠ ',' ∧ Text.isBlank c = false

/-- A word without commas gives a plain field. -/
theorem plain_on {word : List Char} (hne : word ≠ [])
    (h : ∀ c ∈ word, c ≠ ',' ∧ Text.isBlank c = false) (descending : Bool) :
    (on (String.ofList word) descending).Plain := by
  have hfield : (on (String.ofList word) descending).field.toList = word.map Char.toLower := by
    rw [on, toList_normalizeName, String.toList_ofList, Text.trimmed_eq_self]
    · exact fun c hc => (h c (List.mem_of_mem_head? hc)).2
    · exact fun c hc => (h c (List.mem_of_mem_getLast? hc)).2
  refine ⟨normalizeName_normalizeName _, fun hempty => hne ?_, fun c hc => ?_⟩
  · rw [hempty] at hfield
    exact List.map_eq_nil_iff.1 hfield.symm
  · rw [hfield] at hc
    obtain ⟨d, hd, rfl⟩ := List.mem_map.1 hc
    refine ⟨fun hcomma => (h d hd).1 (Text.eq_of_toLower_eq rfl hcomma), ?_⟩
    rw [Text.isBlank_toLower]
    exact (h d hd).2

/-- What is read is the first word, with one of the two directions. -/
theorem exists_of_ofWords? {words : List (List Char)} {t : SortTerm} (h : ofWords? words = some t) :
    ∃ field ∈ words, ∃ descending, on (String.ofList field) descending = t := by
  unfold ofWords? at h
  split at h
  · exact ⟨_, List.mem_cons_self, false, Option.some.inj h⟩
  · split at h
    · exact ⟨_, List.mem_cons_self, false, Option.some.inj h⟩
    · exact ⟨_, List.mem_cons_self, true, Option.some.inj h⟩
    · exact absurd h nofun
  · exact absurd h nofun

namespace Plain

variable {t : SortTerm} (h : t.Plain)
include h

/-- The words of a plain term are its field and its direction. -/
theorem words_text :
    Text.words t.text.toList =
      [t.field.toList, (if t.descending then "DESC" else "ASC").toList] := by
  have hfield : Text.words t.field.toList = [t.field.toList] :=
    Text.words_of_forall (fun hnil => h.nonempty (String.toList_eq_nil_iff.1 hnil))
      fun c hc => (h.solid c hc).2
  have hdirection : (if t.descending then " DESC" else " ASC").toList =
      ' ' :: (if t.descending then "DESC" else "ASC").toList := by
    split <;> rfl
  have hword : Text.words (if t.descending then "DESC" else "ASC").toList =
      [(if t.descending then "DESC" else "ASC").toList] := by
    split <;> decide
  rw [text, String.toList_append, hdirection, Text.words_append_blank (by decide), hfield, hword]
  rfl

/-- **A plain term is read from its text.** -/
theorem ofWords?_text : ofWords? (Text.words t.text.toList) = some t := by
  obtain ⟨field, descending⟩ := t
  have hfield : normalizeName field = field := h.normal
  have hasc : Text.upper "ASC" = "ASC" := by decide
  have hdesc : Text.upper "DESC" = "DESC" := by decide
  rw [h.words_text]
  cases descending with
  | false =>
    show ofWords? [field.toList, "ASC".toList] = some ⟨field, false⟩
    simp only [ofWords?, String.ofList_toList, hasc, on, hfield]
  | true =>
    show ofWords? [field.toList, "DESC".toList] = some ⟨field, true⟩
    simp only [ofWords?, String.ofList_toList, hdesc, on, hfield]

/-- The text of a plain term has no comma. -/
theorem ne_comma_of_mem_text : ∀ c ∈ t.text.toList, c ≠ ',' := by
  have hdirection : (if t.descending then " DESC" else " ASC").toList.all (· != ',') = true := by
    split <;> rfl
  intro c hc
  rw [text, String.toList_append, List.mem_append] at hc
  rcases hc with hc | hc
  · exact (h.solid c hc).1
  · exact bne_iff_ne.1 (List.all_eq_true.1 hdirection c hc)

end Plain

end SortTerm

namespace SortOrder

/-! ### Reading term by term -/

/-- The terms of a text. -/
def terms? (text : List Char) : Option (List SortTerm) :=
  (Text.splitAt (· == ',') text).mapM fun piece => SortTerm.ofWords? (Text.words piece)

theorem ofText_eq_ok_iff {text : String} {o : SortOrder} :
    ofText text = .ok o ↔ terms? text.toList = some o.terms := by
  unfold ofText terms?
  split
  · next terms hterms =>
    rw [hterms, Except.ok.injEq, Option.some.injEq]
    exact ⟨fun h => h ▸ rfl, fun h => h ▸ rfl⟩
  · next hterms => simp [hterms]

theorem terms?_append (x y : List Char) :
    terms? (x ++ ',' :: y) = do return (← terms? x) ++ (← terms? y) := by
  rw [terms?, Text.splitAt_append rfl, List.mapM_append]
  rfl

/-- A blank in front is not read. -/
theorem terms?_cons_blank {c : Char} (hc : Text.isBlank c = true) (text : List Char) :
    terms? (c :: text) = terms? text := by
  have hcomma : (c == ',') = false := by
    refine beq_false_of_ne fun h => ?_
    rw [h] at hc
    exact absurd hc (by decide)
  rw [terms?, Text.splitAt, hcomma, terms?]
  cases hpieces : Text.splitAt (· == ',') text with
  | nil => exact absurd hpieces (Text.splitAt_ne_nil _ _)
  | cons piece pieces =>
    show (piece.cons c :: pieces).mapM _ = _
    rw [List.mapM_cons, List.mapM_cons, Text.words_cons_blank hc]

theorem terms?_text {t : SortTerm} (h : t.Plain) : terms? t.text.toList = some [t] := by
  have hcomma : ∀ c ∈ t.text.toList, (c == ',') = false :=
    fun c hc => beq_false_of_ne (h.ne_comma_of_mem_text c hc)
  rw [terms?, Text.splitAt_of_forall hcomma, List.mapM_cons, h.ofWords?_text]
  rfl

/-- Plain terms are read from their texts, with commas between them. -/
theorem terms?_texts {terms : List SortTerm} (hne : terms ≠ []) (h : ∀ t ∈ terms, t.Plain) :
    terms? (", ".intercalate (terms.map SortTerm.text)).toList = some terms := by
  induction terms with
  | nil => exact absurd rfl hne
  | cons t rest ih =>
    obtain ⟨ht, hrest⟩ := List.forall_mem_cons.1 h
    cases rest with
    | nil =>
      rw [List.map_singleton, String.intercalate_singleton]
      exact terms?_text ht
    | cons u rest =>
      have hseparator : ", ".toList = [',', ' '] := rfl
      rw [List.map_cons, List.map_cons, String.intercalate_cons_cons, ← List.map_cons,
        String.toList_append, String.toList_append, hseparator, List.append_assoc, List.cons_append,
        List.singleton_append, terms?_append, terms?_cons_blank (by decide), terms?_text ht,
        ih (by simp) hrest]
      rfl

theorem ofText_text {o : SortOrder} (hne : o.terms ≠ []) (h : ∀ t ∈ o.terms, t.Plain) :
    ofText o.text = .ok o := ofText_eq_ok_iff.2 (terms?_texts hne h)

theorem plain_of_pieces {pieces : List (List Char)} {terms : List SortTerm}
    (h : pieces.mapM (fun piece => SortTerm.ofWords? (Text.words piece)) = some terms)
    (hpieces : ∀ piece ∈ pieces, ∀ c ∈ piece, c ≠ ',') :
    terms.length = pieces.length ∧ ∀ t ∈ terms, t.Plain := by
  induction pieces generalizing terms with
  | nil =>
    cases h
    exact ⟨rfl, nofun⟩
  | cons piece pieces ih =>
    rw [List.mapM_cons] at h
    obtain ⟨t, ht, h⟩ := Option.bind_eq_some_iff.1 h
    obtain ⟨rest, hrest, h⟩ := Option.bind_eq_some_iff.1 h
    obtain rfl := Option.some.inj h
    obtain ⟨hpiece, hpieces⟩ := List.forall_mem_cons.1 hpieces
    obtain ⟨hlength, hplain⟩ := ih hrest hpieces
    obtain ⟨field, hfield, descending, rfl⟩ := SortTerm.exists_of_ofWords? ht
    obtain ⟨hne, hword⟩ := Text.mem_of_mem_words hfield
    have hsolid : ∀ c ∈ field, c ≠ ',' ∧ Text.isBlank c = false :=
      fun c hc => ⟨hpiece c (hword c hc).1, (hword c hc).2⟩
    exact ⟨congrArg (· + 1) hlength,
      List.forall_mem_cons.2 ⟨SortTerm.plain_on hne hsolid descending, hplain⟩⟩

/-- What is read has terms, and they are plain. -/
theorem plain_of_ofText {text : String} {o : SortOrder} (h : ofText text = .ok o) :
    o.terms ≠ [] ∧ ∀ t ∈ o.terms, t.Plain := by
  obtain ⟨hlength, hplain⟩ := plain_of_pieces (ofText_eq_ok_iff.1 h) fun piece hpiece c hc =>
    ne_of_beq_false (Text.mem_of_mem_splitAt hpiece c hc).2
  refine ⟨fun hnil => ?_, hplain⟩
  rw [hnil, List.length_nil] at hlength
  exact Text.splitAt_ne_nil _ _ (List.eq_nil_of_length_eq_zero hlength.symm)

/-- **Orders survive their text.** Whatever text an order was read from, its own text is read as the
same terms.  The orders that are read from their own texts are exactly those with terms, all on
fields in normal form that are neither empty nor have a comma or a blank in them; a field may be
named like a direction. -/
theorem text_round_trips :
    (∀ (text : String) (o : SortOrder), ofText text = .ok o → ofText o.text = .ok o) ∧
      ∀ o : SortOrder, ofText o.text = .ok o ↔ o.terms ≠ [] ∧ ∀ t ∈ o.terms, t.Plain := by
  refine ⟨fun text o h => ?_, fun o => ⟨plain_of_ofText, fun h => ofText_text h.1 h.2⟩⟩
  obtain ⟨hne, hplain⟩ := plain_of_ofText h
  exact ofText_text hne hplain

/-- An em space, capitals, and fields named like directions. -/
theorem text_round_trips_directions :
    ofText "\u2003Num asc,DESC desc , Asc" =
        .ok ⟨[⟨"num", false⟩, ⟨"desc", true⟩, ⟨"asc", false⟩]⟩ ∧
      (⟨[⟨"num", false⟩, ⟨"desc", true⟩, ⟨"asc", false⟩]⟩ : SortOrder).text =
        "num ASC, desc DESC, asc ASC" ∧
      ofText "num ASC, desc DESC, asc ASC" =
        .ok ⟨[⟨"num", false⟩, ⟨"desc", true⟩, ⟨"asc", false⟩]⟩ := by
  have hread : ofText "\u2003Num asc,DESC desc , Asc" =
      .ok ⟨[⟨"num", false⟩, ⟨"desc", true⟩, ⟨"asc", false⟩]⟩ := by rfl
  have htext : (⟨[⟨"num", false⟩, ⟨"desc", true⟩, ⟨"asc", false⟩]⟩ : SortOrder).text =
      "num ASC, desc DESC, asc ASC" := by rfl
  exact ⟨hread, htext, htext ▸ text_round_trips.1 _ _ hread⟩

end SortOrder

end LayeredStore
