import LayeredStore.Proofs.Numerals

/-! # Documents are read back

The text of a document whose numerals are well written is read as that document
(`Json.WellWritten.ofText?_text`).  Cutting the text gives the lexemes that were written,
since every string ends at its own quote and every numeral before something that cannot
continue it (`Json.WellWritten.lexemes?_text`); and taking these lexemes one after another
delivers the value to whatever waits for it (`Json.WellWritten.run_written`).
-/
namespace LayeredStore.Json

/-! ### Strings -/

theorem hexValue?_hexDigit {n : Nat} (h : n < 16) : hexValue? (hexDigit n) = some n := by
  revert h
  revert n
  decide

/-- The escape of a control is the one of its code. -/
theorem stringBody?_control {n : Nat} (h : n < 0x20) (rest : List Char) :
    stringBody? ('\\' :: 'u' :: '0' :: '0' :: hexDigit (n / 16) :: hexDigit (n % 16) :: rest) =
      prepend (some (Char.ofNat n)) (stringBody? rest) := by
  have hunit : unit? '0' '0' (hexDigit (n / 16)) (hexDigit (n % 16)) = some n := by
    have hvalue : ((0 * 16 + 0) * 16 + n / 16) * 16 + n % 16 = n := by omega
    have hzero : hexValue? '0' = some 0 := rfl
    simp only [unit?, hzero, hexValue?_hexDigit (show n / 16 < 16 by omega),
      hexValue?_hexDigit (Nat.mod_lt n (by decide))]
    exact congrArg some hvalue
  have hhigh : isHighSurrogate n = false := by simp [isHighSurrogate]; omega
  have hlow : isLowSurrogate n = false := by simp [isLowSurrogate]; omega
  simp [stringBody?, hunit, hhigh, hlow]

/-- An escaped character is read back. -/
theorem stringBody?_escape (c : Char) (rest : List Char) :
    stringBody? (escape c ++ rest) = prepend (some c) (stringBody? rest) := by
  by_cases hsimple : c ∈ ['"', '\\', '\x08', '\t', '\n', '\x0c', '\r']
  · simp only [List.mem_cons, List.not_mem_nil, or_false] at hsimple
    rcases hsimple with rfl | rfl | rfl | rfl | rfl | rfl | rfl <;> rfl
  simp only [List.mem_cons, List.not_mem_nil, or_false, not_or] at hsimple
  obtain ⟨hquote, hslash, h8, ht, hn, hf, hr⟩ := hsimple
  unfold escape
  rw [if_neg hquote, if_neg hslash, if_neg h8, if_neg ht, if_neg hn, if_neg hf, if_neg hr]
  split
  · next hcontrol =>
    rw [← Char.ofNat_toNat c]
    simpa using stringBody?_control hcontrol rest
  · next hplain =>
    rw [List.singleton_append, stringBody?.eq_def]
    split
    · next heq => cases heq
    · next heq => exact absurd (List.cons.inj heq).1 hquote
    · next heq => exact absurd (List.cons.inj heq).1 hslash
    · next heq => exact absurd (List.cons.inj heq).1 hslash
    · next heq =>
      obtain ⟨rfl, rfl⟩ := List.cons.inj heq
      rw [if_neg (not_or.2 ⟨hslash, hplain⟩)]

/-- **An escaped text ends at its own quote.** -/
theorem stringBody?_flatMap_escape (text rest : List Char) :
    stringBody? (text.flatMap escape ++ '"' :: rest) = some (some text, rest) := by
  induction text with
  | nil => rfl
  | cons c text ih => rw [List.flatMap_cons, List.append_assoc, stringBody?_escape, ih]; rfl

theorem lexeme?_quoted (s : String) (rest : List Char) :
    lexeme? (quoted s ++ rest) = some (.string (some s), rest) := by
  have hbody := stringBody?_flatMap_escape s.toList rest
  have htext : quoted s ++ rest = '"' :: (s.toList.flatMap escape ++ '"' :: rest) := by
    simp [quoted]
  rw [htext]
  simp [lexeme?, hbody, String.ofList_toList]

/-! ### Numbers -/

theorem lexeme?_of_isDigit {c : Char} (h : c.isDigit = true) (rest : List Char) :
    lexeme? (c :: rest) = unsigned? false (c :: rest) := by
  unfold lexeme?
  split
  case h_11 =>
    unfold number?
    split
    · next heq => obtain ⟨rfl, -⟩ := List.cons.inj heq; exact absurd h (by decide)
    · rfl
  all_goals
    next heq => obtain ⟨rfl, -⟩ := List.cons.inj heq; exact absurd h (by decide)

/-- The number text of a well-written numeral is its lexeme. -/
theorem lexeme?_number {n : Numeral} (hn : n.WellWritten) {rest : List Char}
    (h : Numeral.Delimited rest) : lexeme? (n.text ++ rest) = some (.number n, rest) := by
  have hscan : unsigned? n.negative (n.magnitudeText ++ rest) = some (.number n, rest) := by
    simp [unsigned?, Numeral.scan?_text hn h, hn.strict]
  rw [Numeral.text_eq]
  cases hneg : n.negative with
  | true =>
    rw [hneg] at hscan
    simpa [lexeme?, number?] using hscan
  | false =>
    rw [hneg] at hscan
    obtain ⟨d, digits, hwhole⟩ : ∃ d digits, n.whole = d :: digits := by
      cases hw : n.whole with
      | nil => have := hn.strict; simp [isStrict, hw] at this
      | cons d digits => exact ⟨d, digits, rfl⟩
    have hd : d.isDigit = true := hn.whole d (by simp [hwhole])
    simp only [Bool.false_eq_true, if_false, List.nil_append, Numeral.magnitudeText, hwhole,
      List.cons_append] at hscan ⊢
    rw [lexeme?_of_isDigit hd, hscan]

/-! ### Lexemes of documents -/

mutual
/-- The lexemes of a document. -/
def written : Json → List Lexeme
  | null => [.null]
  | boolean b => [.boolean b]
  | number n => [.number n]
  | string s => [.string (some s)]
  | array items => .beginArray :: (writtenItems items ++ [.endArray])
  | object members => .beginObject :: (writtenMembers members ++ [.endObject])
  | illegible => [.string none]

/-- The lexemes of the items of an array. -/
def writtenItems : List Json → List Lexeme
  | [] => []
  | [item] => item.written
  | item :: rest => item.written ++ .comma :: writtenItems rest

/-- The lexemes of the members of an object. -/
def writtenMembers : List (String × Json) → List Lexeme
  | [] => []
  | [(name, value)] => .string (some name) :: .colon :: value.written
  | (name, value) :: rest =>
    .string (some name) :: .colon :: (value.written ++ .comma :: writtenMembers rest)
end

/-- Every numeral of the document is well written, and every string has its text. -/
inductive WellWritten : Json → Prop
  | null : WellWritten null
  | boolean (b : Bool) : WellWritten (boolean b)
  | number {n : Numeral} (h : n.WellWritten) : WellWritten (number n)
  | string (s : String) : WellWritten (string s)
  | array {items : List Json} (h : ∀ item ∈ items, WellWritten item) : WellWritten (array items)
  | object {members : List (String × Json)} (h : ∀ m ∈ members, WellWritten m.2) :
      WellWritten (object members)

@[simp] theorem itemsText_cons_cons (item next : Json) (rest : List Json) :
    itemsText (item :: next :: rest) = item.text ++ ',' :: itemsText (next :: rest) := rfl

@[simp] theorem writtenItems_cons_cons (item next : Json) (rest : List Json) :
    writtenItems (item :: next :: rest) = item.written ++ .comma :: writtenItems (next :: rest) :=
  rfl

@[simp] theorem membersText_cons_cons (name : String) (value : Json) (next : String × Json)
    (rest : List (String × Json)) : membersText ((name, value) :: next :: rest) =
      quoted name ++ ':' :: (value.text ++ ',' :: membersText (next :: rest)) := rfl

@[simp] theorem writtenMembers_cons_cons (name : String) (value : Json) (next : String × Json)
    (rest : List (String × Json)) : writtenMembers ((name, value) :: next :: rest) =
      .string (some name) :: .colon :: (value.written ++ .comma :: writtenMembers (next :: rest)) :=
  rfl

/-- No lexeme starts with a blank. -/
theorem lexeme?_of_isGap {c : Char} (h : isGap c = true) (cs : List Char) :
    lexeme? (c :: cs) = none := by
  have hchar : c = ' ' ∨ c = '\t' ∨ c = '\n' ∨ c = '\r' := by
    simpa [isGap, or_assoc] using h
  have hunsigned : c.isDigit = false → unsigned? false (c :: cs) = none := by
    intro hdigit
    unfold unsigned?
    split
    · next n rest hscan =>
      obtain ⟨e, -, hn⟩ := Option.map_eq_some_iff.1 hscan
      obtain ⟨rfl, -⟩ := Prod.mk.inj hn
      simp [isStrict, hdigit]
    · rfl
  rcases hchar with rfl | rfl | rfl | rfl <;> exact hunsigned rfl

theorem lexemes?_of_lexeme? {text rest : List Char} {l : Lexeme}
    (h : lexeme? text = some (l, rest)) : lexemes? text = (lexemes? rest).map (l :: ·) := by
  cases text with
  | nil => cases h
  | cons c cs =>
    have hgap : isGap c = false := Bool.eq_false_iff.2 fun hg => by
      rw [lexeme?_of_isGap hg] at h
      cases h
    rw [lexemes?, hgap]
    simp only [Bool.false_eq_true, if_false]
    split
    · next hnone => rw [h] at hnone; cases hnone
    · next hsome => rw [h] at hsome; cases hsome; rfl

theorem lexemes?_quoted (s : String) (rest : List Char) :
    lexemes? (quoted s ++ rest) = (lexemes? rest).map (.string (some s) :: ·) :=
  lexemes?_of_lexeme? (lexeme?_quoted s rest)

/-- What follows a value in a document. -/
def Follows (text : List Char) : Prop := ∀ c ∈ text.head?, c = ',' ∨ c = ']' ∨ c = '}'

theorem Follows.delimited {text : List Char} (h : Follows text) : Numeral.Delimited text := by
  intro c hc
  rcases h c hc with rfl | rfl | rfl <;> decide

theorem follows_cons {c : Char} (h : c = ',' ∨ c = ']' ∨ c = '}') (text : List Char) :
    Follows (c :: text) := fun _ hd => Option.some.inj hd ▸ h

/-- A sign of a document is a lexeme by itself. -/
theorem lexemes?_sign (text : List Char) :
    lexemes? ('[' :: text) = (lexemes? text).map (.beginArray :: ·) ∧
    lexemes? (']' :: text) = (lexemes? text).map (.endArray :: ·) ∧
    lexemes? ('{' :: text) = (lexemes? text).map (.beginObject :: ·) ∧
    lexemes? ('}' :: text) = (lexemes? text).map (.endObject :: ·) ∧
    lexemes? (',' :: text) = (lexemes? text).map (.comma :: ·) ∧
    lexemes? (':' :: text) = (lexemes? text).map (.colon :: ·) := by
  refine ⟨?_, ?_, ?_, ?_, ?_, ?_⟩ <;> exact lexemes?_of_lexeme? rfl

theorem lexemes?_itemsText {items : List Json}
    (h : ∀ item ∈ items, ∀ rest, Follows rest →
      lexemes? (item.text ++ rest) = (lexemes? rest).map (item.written ++ ·))
    {rest : List Char} (hr : Follows rest) :
    lexemes? (itemsText items ++ rest) = (lexemes? rest).map (writtenItems items ++ ·) := by
  induction items with
  | nil => simp [itemsText, writtenItems]
  | cons item items ih =>
    cases items with
    | nil => exact h item List.mem_cons_self rest hr
    | cons next items =>
      have hrest := ih fun i hi => h i (List.mem_cons_of_mem item hi)
      have hcomma := (lexemes?_sign (itemsText (next :: items) ++ rest)).2.2.2.2.1
      rw [itemsText_cons_cons, List.append_assoc, List.cons_append,
        h item List.mem_cons_self _ (follows_cons (.inl rfl) _), hcomma, hrest]
      simp [Function.comp_def]

theorem lexemes?_membersText {members : List (String × Json)}
    (h : ∀ m ∈ members, ∀ rest, Follows rest →
      lexemes? (m.2.text ++ rest) = (lexemes? rest).map (m.2.written ++ ·))
    {rest : List Char} (hr : Follows rest) :
    lexemes? (membersText members ++ rest) = (lexemes? rest).map (writtenMembers members ++ ·) := by
  induction members with
  | nil => simp [membersText, writtenMembers]
  | cons m members ih =>
    obtain ⟨name, value⟩ := m
    have hvalue := h (name, value) List.mem_cons_self
    cases members with
    | nil =>
      have hcolon := (lexemes?_sign (value.text ++ rest)).2.2.2.2.2
      rw [membersText, List.append_assoc, lexemes?_quoted, List.cons_append, hcolon, hvalue rest hr]
      simp [writtenMembers, Function.comp_def]
    | cons next members =>
      have hrest := ih fun m hm => h m (List.mem_cons_of_mem _ hm)
      have hcomma := (lexemes?_sign (membersText (next :: members) ++ rest)).2.2.2.2.1
      have hcolon := (lexemes?_sign
        (value.text ++ ',' :: (membersText (next :: members) ++ rest))).2.2.2.2.2
      rw [membersText_cons_cons, List.append_assoc, lexemes?_quoted, List.cons_append, List.append_assoc,
        List.cons_append, hcolon, hvalue _ (follows_cons (.inl rfl) _), hcomma, hrest]
      simp [Function.comp_def]

/-- **The text of a document is cut into its lexemes.** -/
theorem WellWritten.lexemes?_text {j : Json} (h : j.WellWritten) {rest : List Char}
    (hr : Follows rest) : lexemes? (j.text ++ rest) = (lexemes? rest).map (j.written ++ ·) := by
  induction h generalizing rest with
  | null => exact lexemes?_of_lexeme? rfl
  | boolean b => cases b <;> exact lexemes?_of_lexeme? rfl
  -- Of all values only a number could go on into what follows it.
  | number hn => exact lexemes?_of_lexeme? (lexeme?_number hn hr.delimited)
  | string s => exact lexemes?_quoted s rest
  | @array items _ ih =>
    have hclose := (lexemes?_sign rest).2.1
    have hitems := lexemes?_itemsText ih (follows_cons (.inr (.inl rfl)) rest)
    rw [text, List.cons_append, List.append_assoc, (lexemes?_sign _).1, List.singleton_append,
      hitems, hclose]
    simp [written, Function.comp_def]
  | @object members _ ih =>
    have hclose := (lexemes?_sign rest).2.2.2.1
    have hmembers := lexemes?_membersText ih (follows_cons (.inr (.inr rfl)) rest)
    rw [text, List.cons_append, List.append_assoc, (lexemes?_sign _).2.2.1, List.singleton_append,
      hmembers, hclose]
    simp [written, Function.comp_def]

/-! ### Documents of lexemes -/

theorem mapM_eq_some_map {α β : Type} {f : α → Option β} {g : α → β} {items : List α}
    (h : ∀ a ∈ items, f a = some (g a)) : items.mapM f = some (items.map g) := by
  induction items with
  | nil => rfl
  | cons a rest ih =>
    rw [List.mapM_cons, h a List.mem_cons_self, ih fun b hb => h b (List.mem_cons_of_mem a hb)]
    rfl

/-- What is written item by item is read item by item. -/
theorem mapM_map {α β : Type} {write : α → β} {read? : β → Option α} {items : List α}
    (h : ∀ a ∈ items, read? (write a) = some a) : (items.map write).mapM read? = some items := by
  have hall : items.mapM (read? ∘ write) = some (items.map id) := mapM_eq_some_map h
  rw [List.mapM_map, hall, List.map_id]

namespace Progress

theorem run_cons {p q : Progress} {l : Lexeme} (h : p.step l = some q) (ls : List Lexeme) :
    p.run (l :: ls) = q.run ls := by
  rw [run, h]

/-- The first item of an array is read like any other. -/
theorem run_firstItem (outer : List Frame) (j : Json) (ls : List Lexeme) :
    (firstItem outer).run (j.written ++ ls) = (value (.item [] :: outer)).run (j.written ++ ls) := by
  cases j <;> rfl

theorem run_writtenItems {items : List Json}
    (h : ∀ item ∈ items, ∀ outer ls,
      (value outer).run (item.written ++ ls) = (deliver outer item).run ls)
    (hne : items ≠ []) (outer : List Frame) (before : List Json) (ls : List Lexeme) :
    (value (.item before :: outer)).run (writtenItems items ++ .endArray :: ls) =
      (deliver outer (.array (before.reverse ++ items))).run ls := by
  induction items generalizing before with
  | nil => exact absurd rfl hne
  | cons item items ih =>
    have hitem := h item List.mem_cons_self (.item before :: outer)
    cases items with
    | nil =>
      rw [writtenItems, hitem]
      have hclose : (afterItem outer (item :: before)).step .endArray =
          some (deliver outer (.array (before.reverse ++ [item]))) := by
        rw [← List.reverse_cons]; rfl
      exact run_cons hclose ls
    | cons next items =>
      have hcomma : (deliver (.item before :: outer) item).step .comma =
          some (value (.item (item :: before) :: outer)) := rfl
      have hrest := ih (fun i hi => h i (List.mem_cons_of_mem item hi)) (List.cons_ne_nil _ _)
        (item :: before)
      rw [writtenItems_cons_cons, List.append_assoc, hitem, List.cons_append, run_cons hcomma,
        hrest, List.reverse_cons, List.append_assoc, List.singleton_append]

/-- Members with their names. -/
def named (members : List (String × Json)) : List (Option String × Json) :=
  members.map fun m => (some m.1, m.2)

theorem ofMembers_named (members : List (String × Json)) :
    ofMembers (named members) = .object members := by
  have hall : (named members).mapM (fun m => m.1.map (·, m.2)) = some members :=
    mapM_map fun m _ => rfl
  unfold ofMembers
  rw [hall]

theorem run_writtenMembers {members : List (String × Json)}
    (h : ∀ m ∈ members, ∀ outer ls,
      (value outer).run (m.2.written ++ ls) = (deliver outer m.2).run ls)
    (hne : members ≠ []) (outer : List Frame) (before : List (Option String × Json))
    (ls : List Lexeme) :
    (nextName outer before).run (writtenMembers members ++ .endObject :: ls) =
      (deliver outer (ofMembers (before.reverse ++ named members))).run ls := by
  induction members generalizing before with
  | nil => exact absurd rfl hne
  | cons m members ih =>
    obtain ⟨name, value⟩ := m
    have hvalue := h (name, value) List.mem_cons_self (.member before (some name) :: outer)
    have hname : (nextName outer before).step (.string (some name)) =
        some (colon outer before (some name)) := rfl
    have hcolon : (colon outer before (some name)).step .colon =
        some (Progress.value (.member before (some name) :: outer)) := rfl
    cases members with
    | nil =>
      have hclose : (afterMember outer ((some name, value) :: before)).step .endObject =
          some (deliver outer (ofMembers (before.reverse ++ [(some name, value)]))) := by
        rw [← List.reverse_cons]; rfl
      rw [writtenMembers, List.cons_append, List.cons_append, run_cons hname, run_cons hcolon,
        hvalue]
      exact run_cons hclose ls
    | cons next members =>
      have hcomma : (deliver (.member before (some name) :: outer) value).step .comma =
          some (nextName outer ((some name, value) :: before)) := rfl
      have hrest := ih (fun m hm => h m (List.mem_cons_of_mem _ hm)) (List.cons_ne_nil _ _)
        ((some name, value) :: before)
      rw [writtenMembers_cons_cons, List.cons_append, List.cons_append, List.append_assoc,
        run_cons hname, run_cons hcolon, hvalue, List.cons_append, run_cons hcomma, hrest,
        List.reverse_cons, List.append_assoc]
      rfl

end Progress

open Progress in
/-- **The lexemes of a document deliver it** to what waits for it. -/
theorem WellWritten.run_written {j : Json} (h : j.WellWritten) (outer : List Frame)
    (ls : List Lexeme) : (value outer).run (j.written ++ ls) = (deliver outer j).run ls := by
  induction h generalizing outer ls with
  | null | boolean | number | string => rfl
  | @array items _ ih =>
    cases items with
    | nil => rfl
    -- Behind the bracket an end of the array is accepted as well, but it does not come.
    | cons item items =>
      have hitems := run_writtenItems ih (List.cons_ne_nil _ _) outer [] ls
      have hfirst : ∀ ls, (firstItem outer).run (writtenItems (item :: items) ++ ls) =
          (value (.item [] :: outer)).run (writtenItems (item :: items) ++ ls) := by
        intro ls
        cases items with
        | nil => exact run_firstItem outer item ls
        | cons next items =>
          rw [writtenItems_cons_cons, List.append_assoc]
          exact run_firstItem outer item _
      have hopen : (value outer).step .beginArray = some (firstItem outer) := rfl
      rw [written, List.cons_append, run_cons hopen, List.append_assoc, hfirst]
      exact hitems
  | @object members _ ih =>
    cases members with
    | nil => rfl
    -- The same goes for the first name.
    | cons m members =>
      have hmembers := run_writtenMembers ih (List.cons_ne_nil _ _) outer [] ls
      have hfirst : ∀ ls, (firstName outer).run (writtenMembers (m :: members) ++ ls) =
          (nextName outer []).run (writtenMembers (m :: members) ++ ls) := by
        intro ls
        cases members <;> rfl
      have hopen : (value outer).step .beginObject = some (firstName outer) := rfl
      rw [written, List.cons_append, run_cons hopen, List.append_assoc, hfirst]
      rw [List.reverse_nil, List.nil_append, ofMembers_named] at hmembers
      exact hmembers

/-- **A document whose numerals are well written is read back from its text.** -/
theorem WellWritten.ofText?_text {j : Json} (h : j.WellWritten) : ofText? j.text = some j := by
  have hlexemes : lexemes? j.text = some j.written := by
    have hcut : lexemes? (j.text ++ []) = _ := h.lexemes?_text nofun
    rw [List.append_nil, lexemes?] at hcut
    simpa using hcut
  have hrun : (Progress.value []).run j.written = some (.done j) := by
    have hdeliver := h.run_written [] []
    rw [List.append_nil] at hdeliver
    exact hdeliver
  simp only [ofText?, hlexemes, hrun, Progress.document?]

end LayeredStore.Json
