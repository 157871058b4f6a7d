import LayeredStore.Condition.Clause
import LayeredStore.Record.Names
import LayeredStore.Proofs.Numerals

/-! # Lexing clauses

What the words of a clause can be: field names (`IsFieldName`), which are no keywords, and
parameter names (`IsKey`).  Every token of a text is legible, that is, made of such words
(`legible_of_scan`).

In the other direction, `Lexes` says that a text is read as given tokens wherever a blank, a
closing parenthesis or the end comes after it.  Such texts are put together with blanks
between them (`Lexes.append`), so a text in which blanks and parentheses separate the words
is read word by word.
-/
namespace LayeredStore.Token

/-- The words of a clause that are no field names, in capitals. -/
def keywords : List String := ["AND", "OR", "NOT", "LIKE", "IN"]

/-- A text that is read as one word, a keyword or a field name. -/
structure IsWord (word : String) : Prop where
  ne_nil : word.toList ≠ []
  chars : ∀ c ∈ word.toList, isNameChar c = true
  start : ∀ c ∈ word.toList.head?, c.isDigit = false

/-- A text that a clause can have as a field name. -/
structure IsFieldName (name : String) : Prop extends IsWord name where
  no_keyword : Text.upper name ∉ keywords

/-- A text that a clause can have as a parameter name. -/
structure IsKey (key : String) : Prop where
  ne_nil : key.toList ≠ []
  chars : ∀ c ∈ key.toList, isKeyChar c = true

theorem isWord_iff (word : String) : IsWord word ↔ word.toList ≠ [] ∧
    word.toList.all isNameChar = true ∧ word.toList.head?.all (!·.isDigit) = true := by
  simp only [List.all_eq_true, Option.all_eq_true, Bool.not_eq_true']
  exact ⟨fun ⟨hne, hchars, hstart⟩ => ⟨hne, hchars, hstart⟩,
    fun ⟨hne, hchars, hstart⟩ => ⟨hne, hchars, hstart⟩⟩

instance (word : String) : Decidable (IsWord word) := decidable_of_iff _ (isWord_iff word).symm

instance (name : String) : Decidable (IsFieldName name) :=
  decidable_of_iff (IsWord name ∧ Text.upper name ∉ keywords)
    ⟨fun ⟨hword, hno⟩ => ⟨hword, hno⟩, fun ⟨hword, hno⟩ => ⟨hword, hno⟩⟩

instance (key : String) : Decidable (IsKey key) :=
  decidable_of_iff (key.toList ≠ [] ∧ key.toList.all isKeyChar = true)
    ⟨fun ⟨hne, hchars⟩ => ⟨hne, List.all_eq_true.1 hchars⟩,
      fun ⟨hne, hchars⟩ => ⟨hne, List.all_eq_true.2 hchars⟩⟩

/-- A token whose words a clause can have. -/
inductive Legible : Token → Prop
  | identifier {name} : IsFieldName name → Legible (identifier name)
  | placeholder {number} : Legible (placeholder number)
  | named {key} : IsKey key → Legible (named key)
  | op {operator} : Legible (op operator)
  | opening : Legible opening
  | closing : Legible closing
  | and : Legible and
  | or : Legible or
  | not : Legible not

theorem ofWord_eq_identifier_iff {word name : String} :
    ofWord word = identifier name ↔ word = name ∧ Text.upper word ∉ keywords := by
  unfold ofWord
  split
  all_goals simp_all [keywords]

/-! ### Characters -/

/-- The code points of the blanks. -/
def blankCodes : List Nat :=
  [0x9, 0xA, 0xB, 0xC, 0xD, 0x20, 0x85, 0xA0, 0x1680, 0x2000, 0x2001, 0x2002, 0x2003, 0x2004,
    0x2005, 0x2006, 0x2007, 0x2008, 0x2009, 0x200A, 0x2028, 0x2029, 0x202F, 0x205F, 0x3000]

theorem mem_blankCodes {c : Char} (h : Text.isBlank c = true) : c.toNat ∈ blankCodes := by
  simp only [Text.isBlank, Bool.or_eq_true, Bool.and_eq_true, decide_eq_true_eq,
    beq_iff_eq] at h
  simp only [blankCodes, List.mem_cons, List.not_mem_nil, or_false]
  omega

theorem isNameChar_blankCodes : ∀ n ∈ blankCodes, isNameChar (Char.ofNat n) = false := by
  decide +kernel

theorem isBlank_of_isNameChar {c : Char} (h : isNameChar c = true) : Text.isBlank c = false := by
  refine Bool.eq_false_iff.2 fun hblank => ?_
  have := isNameChar_blankCodes _ (mem_blankCodes hblank)
  rw [Char.ofNat_toNat, h] at this
  cases this

/-! ### Normal names -/

theorem isNameChar_toLower : ∀ c : Char, isNameChar c.toLower = isNameChar c := by
  refine Text.forall_char_of_ascii (by decide +kernel) fun c h => ?_
  rw [h]

/-- A field name keeps its letters when it is made normal. -/
theorem IsFieldName.normalizeName_eq {name : String} (h : IsFieldName name) :
    LayeredStore.normalizeName name = Text.lower name := by
  have hblank : ∀ c ∈ name.toList, Text.isBlank c = false := fun c hc =>
    isBlank_of_isNameChar (h.chars c hc)
  have htrimmed : Text.trimmed name.toList = name.toList :=
    Text.trimmed_eq_self (fun c hc => hblank c (List.mem_of_mem_head? hc))
      fun c hc => hblank c (List.mem_of_mem_getLast? hc)
  rw [LayeredStore.normalizeName, Text.trim, htrimmed, String.ofList_toList]

theorem IsFieldName.normalizeName {name : String} (h : IsFieldName name) :
    IsFieldName (LayeredStore.normalizeName name) := by
  rw [h.normalizeName_eq]
  refine ⟨⟨?_, ?_, ?_⟩, ?_⟩
  · rw [Text.toList_lower]
    exact fun hnil => h.ne_nil (List.map_eq_nil_iff.1 hnil)
  · rw [Text.toList_lower, List.forall_mem_map]
    exact fun c hc => (isNameChar_toLower c).trans (h.chars c hc)
  · rw [Text.toList_lower, List.head?_map]
    intro c hc
    obtain ⟨x, hx, rfl⟩ := Option.map_eq_some_iff.1 hc
    exact (Text.isDigit_toLower x).trans (h.start x hx)
  · rw [Text.upper_lower]
    exact h.no_keyword

theorem isKeyChar_of_isDigit {c : Char} (h : c.isDigit = true) : isKeyChar c = true := by
  have hascii : c.toNat < 0x80 := by
    simp only [Char.isDigit, Bool.and_eq_true, decide_eq_true_eq, UInt32.le_iff_toNat_le] at h
    have : c.toNat ≤ 57 := h.2
    omega
  rw [isKeyChar, Text.isAlphanumeric_of_ascii c hascii, Char.isAlphanum, h, Bool.or_true,
    Bool.true_or]

/-- The number of a placeholder is an argument key. -/
theorem isKey_toString (n : Nat) : IsKey (toString n) := by
  have hdigits : (toString n).toList = Nat.toDigits 10 n := String.toList_ofList
  refine ⟨?_, ?_⟩
  · rw [hdigits]
    exact Nat.toDigits_ne_nil
  · rw [hdigits]
    exact fun c hc => isKeyChar_of_isDigit (Numeral.isDigit_of_mem_toDigits hc)

theorem Legible.isFieldName {name : String} (h : Legible (.identifier name)) :
    IsFieldName name := by
  cases h with
  | identifier h => exact h

theorem Legible.isKey {t : Token} {key : String} (h : t.Legible) (hkey : t.key? = some key) :
    IsKey key := by
  cases h with
  | placeholder =>
    cases hkey
    exact isKey_toString _
  | named h =>
    cases hkey
    exact h
  | _ => cases hkey

/-! ### Lexemes -/

section
variable {seen : Nat} {rest : List Char}

theorem lexeme_word {c : Char} {word : List Char} (hword : ∀ x ∈ c :: word, isNameChar x = true)
    (hdigit : c.isDigit = false) (hrest : ∀ x ∈ rest.head?, isNameChar x = false) :
    lexeme seen c (word ++ rest) = .ok (ofWord (String.ofList (c :: word)), word, rest) := by
  have hc : isNameChar c = true := hword c List.mem_cons_self
  have htail : ∀ x ∈ word, isNameChar x = true := fun x hx => hword x (List.mem_cons_of_mem c hx)
  unfold lexeme
  split
  case h_9 =>
    rw [if_pos hc, hdigit, Text.takeWhile_word htail hrest, Text.dropWhile_word htail hrest]
    rfl
  all_goals exact absurd hc (by decide)

theorem lexeme_named {key : List Char} (hne : key ≠ []) (hkey : ∀ x ∈ key, isKeyChar x = true)
    (hrest : ∀ x ∈ rest.head?, isKeyChar x = false) :
    lexeme seen ':' (key ++ rest) = .ok (named (String.ofList key), key, rest) := by
  have hempty : key.isEmpty = false := by simpa using hne
  simp [lexeme, Text.takeWhile_word hkey hrest, Text.dropWhile_word hkey hrest, hempty]

theorem legible_takeWhile_key (hne : rest.takeWhile isKeyChar ≠ []) :
    (named (String.ofList (rest.takeWhile isKeyChar))).Legible := by
  refine .named ⟨by rwa [String.toList_ofList], ?_⟩
  rw [String.toList_ofList]
  exact List.all_eq_true.1 List.all_takeWhile

theorem legible_ofWord {c : Char} {word : List Char} (hword : ∀ x ∈ c :: word, isNameChar x = true)
    (hdigit : c.isDigit = false) : (ofWord (String.ofList (c :: word))).Legible := by
  have hstart : ∀ x ∈ (String.ofList (c :: word)).toList.head?, x.isDigit = false := by
    rw [String.toList_ofList]
    intro x hx
    cases hx
    exact hdigit
  unfold ofWord
  split
  case h_6 =>
    refine .identifier ⟨⟨?_, ?_, hstart⟩, ?_⟩
    · rw [String.toList_ofList]
      exact List.cons_ne_nil c word
    · rwa [String.toList_ofList]
    · simp_all [keywords]
  all_goals constructor

/-- A lexeme is made of words that a clause can have. -/
theorem legible_of_lexeme {c : Char} {word after : List Char} {t : Token}
    (h : lexeme seen c rest = .ok (t, word, after)) : t.Legible := by
  unfold lexeme at h
  split at h
  all_goals try dsimp only at h
  all_goals repeat' split at h
  all_goals simp only [reduceCtorEq, Except.ok.injEq, Prod.mk.injEq] at h
  all_goals obtain ⟨rfl, rfl, rfl⟩ := h
  case h_4.isFalse hempty => exact legible_takeWhile_key (by simpa using hempty)
  case h_9.isTrue.isFalse hname hdigit =>
    refine legible_ofWord (List.forall_mem_cons.2 ⟨hname, ?_⟩) (by simpa using hdigit)
    exact List.all_eq_true.1 List.all_takeWhile
  all_goals constructor

end

/-- **Every token of a text is legible.** -/
theorem legible_of_scan {seen offset : Nat} {text : List Char} {located : List (Nat × Token)}
    (h : scan seen offset text = .ok located) : ∀ e ∈ located, e.2.Legible := by
  fun_induction scan seen offset text generalizing located with
  | case1 =>
    cases h
    intro e he
    cases he
  | case2 seen offset c rest hblank ih => exact ih h
  | case3 => cases h
  | case4 => cases h
  | case5 seen offset c rest hblank token word after hlexeme hlt tokens hscan ih =>
    cases h
    intro e he
    rcases List.mem_cons.1 he with rfl | he
    · exact legible_of_lexeme hlexeme
    · exact ih hscan e he

/-! ### Texts that are read as given tokens -/

/-- The end of a text, or a blank or closing parenthesis: no word goes on there. -/
def Ends (rest : List Char) : Prop := ∀ c ∈ rest.head?, c = ' ' ∨ c = ')'

theorem Ends.nil : Ends [] := by
  intro c hc
  cases hc

theorem Ends.cases {rest : List Char} (h : Ends rest) :
    rest = [] ∨ (∃ tail, rest = ' ' :: tail) ∨ ∃ tail, rest = ')' :: tail := by
  cases rest with
  | nil => exact .inl rfl
  | cons c tail =>
    rcases h c rfl with rfl | rfl
    · exact .inr (.inl ⟨tail, rfl⟩)
    · exact .inr (.inr ⟨tail, rfl⟩)

theorem Ends.noName {rest : List Char} (h : Ends rest) : ∀ c ∈ rest.head?, isNameChar c = false := by
  intro c hc
  rcases h c hc with rfl | rfl <;> decide

theorem Ends.noKey {rest : List Char} (h : Ends rest) : ∀ c ∈ rest.head?, isKeyChar c = false := by
  intro c hc
  rcases h c hc with rfl | rfl <;> decide

/-- The text is read as the tokens, whatever comes after the end of its last word. -/
def Lexes (text : List Char) (ts : List Token) : Prop :=
  ∀ rest, Ends rest → ∀ seen offset, ∃ next located, located.map Prod.snd = ts ∧
    scan seen offset (text ++ rest) = (scan seen next rest).map (located ++ ·)

theorem scan_of_lexeme {seen offset : Nat} {c : Char} {rest word after : List Char} {t : Token}
    (hblank : Text.isBlank c = false) (h : lexeme seen c rest = .ok (t, word, after)) :
    scan seen offset (c :: rest) =
      (scan (if c = '?' then seen + 1 else seen) (offset + bytes (c :: word)) after).map
        ((offset, t) :: ·) := by
  rw [scan, if_neg (by rw [hblank]; decide)]
  split
  · next hl =>
    rw [h] at hl
    cases hl
  · next hl =>
    rw [h] at hl
    cases hl
    split
    · next hs => rw [hs]; rfl
    · next hs => rw [hs]; rfl

theorem Lexes.one (c : Char) (word : List Char) {t : Token} (hblank : Text.isBlank c = false)
    (hc : c ≠ '?')
    (h : ∀ seen rest, Ends rest → lexeme seen c (word ++ rest) = .ok (t, word, rest)) :
    Lexes (c :: word) [t] := by
  intro rest hrest seen offset
  refine ⟨offset + bytes (c :: word), [(offset, t)], rfl, ?_⟩
  rw [List.cons_append, scan_of_lexeme hblank (h seen rest hrest), if_neg hc]
  rfl

theorem Lexes.append {text text' : List Char} {ts us : List Token} (h : Lexes text ts)
    (h' : Lexes text' us) (hends : ∀ rest, Ends rest → Ends (text' ++ rest)) :
    Lexes (text ++ text') (ts ++ us) := by
  intro rest hrest seen offset
  obtain ⟨middle, located, hts, hscan⟩ := h (text' ++ rest) (hends rest hrest) seen offset
  obtain ⟨next, located', hus, hscan'⟩ := h' rest hrest seen middle
  refine ⟨next, located ++ located', by rw [List.map_append, hts, hus], ?_⟩
  rw [List.append_assoc, hscan, hscan']
  cases scan seen next rest with
  | error e => rfl
  | ok tail => simp [Except.map]

theorem Lexes.blank {text : List Char} {ts : List Token} (h : Lexes text ts) :
    Lexes (' ' :: text) ts := by
  intro rest hrest seen offset
  obtain ⟨next, located, hts, hscan⟩ := h rest hrest seen (offset + ' '.utf8Size)
  refine ⟨next, located, hts, ?_⟩
  rw [List.cons_append, scan, if_pos (by decide)]
  exact hscan

/-- A text goes on after a blank. -/
theorem Lexes.followed {text text' : List Char} {ts us : List Token} (h : Lexes text ts)
    (h' : Lexes text' us) : Lexes (text ++ ' ' :: text') (ts ++ us) :=
  h.append h'.blank fun _ _ _ hc => by
    cases hc
    exact .inl rfl

theorem Lexes.opening {text : List Char} {ts : List Token} (h : Lexes text ts) :
    Lexes ('(' :: text) (.opening :: ts) := by
  intro rest hrest seen offset
  obtain ⟨next, located, hts, hscan⟩ := h rest hrest seen (offset + bytes ['('])
  refine ⟨next, (offset, .opening) :: located, by rw [List.map_cons, hts], ?_⟩
  have hlexeme : lexeme seen '(' (text ++ rest) = .ok (.opening, [], text ++ rest) := rfl
  rw [List.cons_append, scan_of_lexeme (by decide) hlexeme, if_neg (by decide), hscan]
  cases scan seen next rest <;> rfl

theorem Lexes.closing {text : List Char} {ts : List Token} (h : Lexes text ts) :
    Lexes (text ++ [')']) (ts ++ [.closing]) :=
  h.append (.one ')' [] (by decide) (by decide) fun _ _ _ => rfl) fun _ _ _ hc => by
    cases hc
    exact .inr rfl

theorem IsWord.lexes {word : String} (h : IsWord word) : Lexes word.toList [ofWord word] := by
  obtain ⟨hne, hchars, hstart⟩ := h
  cases hword : word.toList with
  | nil => exact absurd hword hne
  | cons c rest =>
    rw [hword] at hchars hstart
    have hofWord : word = String.ofList (c :: rest) := by rw [← hword, String.ofList_toList]
    have hname : isNameChar c = true := hchars c List.mem_cons_self
    rw [hofWord]
    refine .one c rest (isBlank_of_isNameChar hname) ?_ fun seen after hafter =>
      lexeme_word hchars (hstart c rfl) hafter.noName
    rintro rfl
    exact absurd hname (by decide)

theorem IsFieldName.lexes {name : String} (h : IsFieldName name) :
    Lexes name.toList [.identifier name] := by
  have := h.toIsWord.lexes
  rwa [ofWord_eq_identifier_iff.2 ⟨rfl, h.no_keyword⟩] at this

theorem IsKey.lexes {key : String} (h : IsKey key) : Lexes (':' :: key.toList) [.named key] := by
  refine .one ':' key.toList (by decide) (by decide) fun seen rest hrest => ?_
  rw [lexeme_named h.ne_nil h.chars hrest.noKey, String.ofList_toList]

/-- A sign that is only read as another one when more signs follow. -/
theorem Lexes.sign (c : Char) {t : Token} (hblank : Text.isBlank c = false) (hc : c ≠ '?')
    (hnil : ∀ seen, lexeme seen c [] = .ok (t, [], []))
    (hspace : ∀ seen tail, lexeme seen c (' ' :: tail) = .ok (t, [], ' ' :: tail))
    (hclosing : ∀ seen tail, lexeme seen c (')' :: tail) = .ok (t, [], ')' :: tail)) :
    Lexes [c] [t] := by
  refine .one c [] hblank hc fun seen rest hrest => ?_
  rcases hrest.cases with rfl | ⟨tail, rfl⟩ | ⟨tail, rfl⟩
  · exact hnil seen
  · exact hspace seen tail
  · exact hclosing seen tail

theorem lexes_symbol (operator : Operator) : Lexes operator.symbol.toList [.op operator] := by
  cases operator with
  | eq => exact .sign '=' (by decide) (by decide) (fun _ => rfl) (fun _ _ => rfl) fun _ _ => rfl
  | lt => exact .sign '<' (by decide) (by decide) (fun _ => rfl) (fun _ _ => rfl) fun _ _ => rfl
  | gt => exact .sign '>' (by decide) (by decide) (fun _ => rfl) (fun _ _ => rfl) fun _ _ => rfl
  | ne => exact .one '!' ['='] (by decide) (by decide) fun _ _ _ => rfl
  | le => exact .one '<' ['='] (by decide) (by decide) fun _ _ _ => rfl
  | ge => exact .one '>' ['='] (by decide) (by decide) fun _ _ _ => rfl
  | like => exact (by decide : IsWord "LIKE").lexes
  | isIn => exact (by decide : IsWord "IN").lexes

/-- A text is read as its tokens when nothing comes after it. -/
theorem Lexes.scan_eq {text : List Char} {ts : List Token} (h : Lexes text ts) :
    ∃ located, located.map Prod.snd = ts ∧ scan 0 0 text = .ok located := by
  obtain ⟨next, located, hts, hscan⟩ := h [] .nil 0 0
  refine ⟨located, hts, ?_⟩
  rw [List.append_nil] at hscan
  rw [hscan, scan]
  simp [Except.map]

end LayeredStore.Token
