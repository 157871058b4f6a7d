import LayeredStore.Json.Reading

/-! # Numerals in documents

A numeral that is well written (`Numeral.WellWritten`) is scanned back from its text when
what follows it cannot be part of it (`Numeral.scan?_text`).  The numerals of integers are
well written and spell them (`Numeral.toInt_ofInt`), and the numerals of binary64 data are
well written in every layout (`Decimal.Layout.wellWritten_numeral`).
-/
namespace LayeredStore

section
variable {p : Char → Bool} {word rest : List Char}

/-- A word ends where its characters do. -/
theorem Text.takeWhile_word (hword : ∀ c ∈ word, p c = true)
    (hrest : ∀ c ∈ rest.head?, p c = false) : (word ++ rest).takeWhile p = word := by
  rw [List.takeWhile_append_of_pos hword]
  cases rest with
  | nil => simp
  | cons c rest => simp [hrest c rfl]

theorem Text.dropWhile_word (hword : ∀ c ∈ word, p c = true)
    (hrest : ∀ c ∈ rest.head?, p c = false) : (word ++ rest).dropWhile p = rest := by
  rw [List.dropWhile_append_of_pos hword]
  cases rest with
  | nil => rfl
  | cons c rest => simp [hrest c rfl]

end

namespace Numeral

@[simp] theorem digitsValue_toDigits (n : Nat) : digitsValue (Nat.toDigits 10 n) = n :=
  Nat.ofDigitChars_ten_toDigits

theorem isDigit_of_mem_toDigits {n : Nat} {c : Char} (h : c ∈ Nat.toDigits 10 n) :
    c.isDigit = true :=
  Nat.isDigit_of_mem_toDigits (by decide) (by decide) h

/-- A text that does not go on with a digit. -/
def NoDigit (text : List Char) : Prop := ∀ c ∈ text.head?, c.isDigit = false

/-- A text that does not go on with any part of a numeral. -/
def Delimited (text : List Char) : Prop :=
  ∀ c ∈ text.head?, c.isDigit = false ∧ c ≠ '.' ∧ c ≠ 'e' ∧ c ≠ 'E'

theorem delimited_nil : Delimited [] := fun _ hc => by cases hc

theorem Delimited.noDigit {text : List Char} (h : Delimited text) : NoDigit text :=
  fun c hc => (h c hc).1

/-- The numeral consists of digits where it should, and a strict reader takes it. -/
structure WellWritten (n : Numeral) : Prop where
  whole : ∀ c ∈ n.whole, c.isDigit = true
  fraction : ∀ digits ∈ n.fraction?, ∀ c ∈ digits, c.isDigit = true
  strict : Json.isStrict n = true

/-- The point with the digits after it. -/
def fractionText : Option (List Char) → List Char
  | some digits => '.' :: digits
  | none => []

/-- The mark of an exponent with its sign and its digits. -/
def exponentText : Option Int → List Char
  | some e => 'e' :: (if e < 0 then '-' else '+') :: Nat.toDigits 10 e.natAbs
  | none => []

/-- The numeral in text without its sign. -/
def magnitudeText (n : Numeral) : List Char :=
  n.whole ++ (fractionText n.fraction? ++ exponentText n.exponent?)

theorem text_eq (n : Numeral) :
    n.text = (if n.negative then ['-'] else []) ++ n.magnitudeText := by
  obtain ⟨negative, whole, fraction?, exponent?⟩ := n
  simp only [text, magnitudeText, List.append_assoc]
  rfl

theorem scanExponent?_text (e? : Option Int) {rest : List Char} (h : Delimited rest) :
    scanExponent? (exponentText e? ++ rest) = some (e?, rest) := by
  cases e? with
  | none =>
    cases rest with
    | nil => rfl
    | cons c rest =>
      obtain ⟨-, -, he, hE⟩ := h c rfl
      simp [exponentText, scanExponent?, he, hE]
  | some e =>
    have hdigits : ∀ c ∈ Nat.toDigits 10 e.natAbs, c.isDigit = true := fun _ =>
      isDigit_of_mem_toDigits
    have hsign : scanSign ((if e < 0 then '-' else '+') :: (Nat.toDigits 10 e.natAbs ++ rest)) =
        (decide (e < 0), Nat.toDigits 10 e.natAbs ++ rest) := by
      by_cases he : e < 0 <;> simp [he, scanSign]
    simp only [exponentText, List.cons_append, scanExponent?, true_or, if_true, hsign,
      Text.takeWhile_word hdigits h.noDigit, Text.dropWhile_word hdigits h.noDigit,
      digitsValue_toDigits, List.isEmpty_iff, Nat.toDigits_ne_nil, if_false, decide_eq_true_eq]
    congr 3
    split <;> omega

theorem delimited_exponentText (e? : Option Int) {rest : List Char} (h : Delimited rest) :
    ∀ c ∈ (exponentText e? ++ rest).head?, c.isDigit = false ∧ c ≠ '.' := by
  cases e? with
  | none => exact fun c hc => ⟨(h c hc).1, (h c hc).2.1⟩
  | some e =>
    intro c hc
    obtain rfl : 'e' = c := by simpa [exponentText] using hc
    decide

/-- **A well-written numeral is scanned back.** -/
theorem scan?_text {n : Numeral} (hn : n.WellWritten) {rest : List Char} (h : Delimited rest) :
    scan? n.negative (n.magnitudeText ++ rest) = some (n, rest) := by
  obtain ⟨negative, whole, fraction?, exponent?⟩ := n
  have hexponent := delimited_exponentText exponent? h
  have hfraction : scanFraction (fractionText fraction? ++ (exponentText exponent? ++ rest)) =
      (fraction?, exponentText exponent? ++ rest) := by
    cases fraction? with
    -- What follows the whole part is an exponent or the rest, and neither starts with a point.
    | none =>
      generalize exponentText exponent? ++ rest = after at hexponent
      cases after with
      | nil => rfl
      | cons c after =>
        have hpoint := (hexponent c rfl).2
        simp only [fractionText, List.nil_append]
        unfold scanFraction
        split
        · next heq => exact absurd (List.cons.inj heq).1 hpoint
        · rfl
    | some digits =>
      have hdigits := hn.fraction digits rfl
      have hno : NoDigit (exponentText exponent? ++ rest) := fun c hc => (hexponent c hc).1
      simp [fractionText, scanFraction, Text.takeWhile_word hdigits hno,
        Text.dropWhile_word hdigits hno]
  have hno : NoDigit (fractionText fraction? ++ (exponentText exponent? ++ rest)) := by
    cases fraction? with
    | none => exact fun c hc => (hexponent c hc).1
    | some digits =>
      intro c hc
      obtain rfl : '.' = c := by simpa [fractionText] using hc
      decide
  have hassoc : magnitudeText ⟨negative, whole, fraction?, exponent?⟩ ++ rest =
      whole ++ (fractionText fraction? ++ (exponentText exponent? ++ rest)) := by
    simp [magnitudeText]
  rw [hassoc, scan?, Text.takeWhile_word hn.whole hno, Text.dropWhile_word hn.whole hno]
  simp only [hfraction, scanExponent?_text exponent? h, Option.map_some]

/-! ### Integers -/

theorem head_toDigits_ne_zero {n : Nat} (h : 0 < n) :
    ∀ c ∈ (Nat.toDigits 10 n).head?, c ≠ '0' := by
  induction n using Nat.base_induction 10 (by decide) with
  | single m hm =>
    intro c hc
    rw [Nat.toDigits_of_lt_base hm] at hc
    obtain rfl : m.digitChar = c := by simpa using hc
    simpa using Nat.ne_of_gt h
  | digit m k hk hm ih =>
    rw [← Nat.toDigits_append_toDigits (by decide) hm hk, List.head?_append,
      List.head?_eq_some_head Nat.toDigits_ne_nil, Option.some_or,
      ← List.head?_eq_some_head Nat.toDigits_ne_nil]
    exact ih hm

/-- Digits that are those of a number and perhaps more, but not after a zero. -/
theorem isStrict_whole {negative : Bool} {whole : List Char} {fraction? : Option (List Char)}
    {exponent? : Option Int} (hne : whole ≠ []) (hzero : ∀ c ∈ whole.head?, c ≠ '0' ∨ whole = ['0'])
    (hf : fraction? ≠ some []) : Json.isStrict ⟨negative, whole, fraction?, exponent?⟩ = true := by
  unfold Json.isStrict
  refine Bool.and_eq_true_iff.2 ⟨?_, by simpa [bne] using hf⟩
  cases whole with
  | nil => exact absurd rfl hne
  | cons d rest =>
    rcases hzero d rfl with hd | hwhole
    · split
      · next heq => cases heq
      · rfl
      · next heq => cases heq; simpa using hd
    · rw [hwhole]
      rfl

theorem wellWritten_ofInt (n : Int) : (ofInt n).WellWritten where
  whole _ hc := isDigit_of_mem_toDigits hc
  fraction _ hd := by cases hd
  strict := by
    refine isStrict_whole Nat.toDigits_ne_nil (fun c hc => ?_) nofun
    rcases Nat.eq_zero_or_pos n.natAbs with hzero | hpos
    · right
      rw [hzero, Nat.toDigits_zero]
    · exact .inl (head_toDigits_ne_zero hpos c hc)

@[simp] theorem toInt_ofInt (n : Int) : (ofInt n).toInt = n := by
  simp only [toInt, ofInt, digitsValue_toDigits, decide_eq_true_eq]
  split <;> omega

end Numeral

/-! ### Stored data -/

namespace Decimal

theorem stripZeros_go_digits_ne_zero (n : Nat) {d : Decimal} (h : d.digits ≠ 0) :
    (stripZeros.go n d).digits ≠ 0 := by
  induction n generalizing d with
  | zero => exact h
  | succ n ih =>
    rw [stripZeros.go]
    split
    · next hz =>
      refine ih ?_
      show d.digits / 10 ≠ 0
      omega
    · exact h

theorem scaled_ne_zero {magnitude : Nat} (h : magnitude ≠ 0) : Binary64.scaled magnitude ≠ 0 := by
  have hstep : Binary64.step magnitude * Binary64.binade < magnitude := by
    have hdiv : magnitude / Binary64.binade * Binary64.binade ≤ magnitude :=
      Nat.div_mul_le_self magnitude Binary64.binade
    unfold Binary64.step
    generalize magnitude / Binary64.binade = quotient at hdiv ⊢
    rcases quotient with _ | quotient
    · simpa using Nat.pos_of_ne_zero h
    · have hpos : 0 < Binary64.binade := by decide
      rw [Nat.succ_mul] at hdiv
      rw [Nat.add_sub_cancel]
      omega
  rw [Binary64.scaled, Nat.shiftLeft_eq]
  refine Nat.mul_ne_zero ?_ (Nat.ne_of_gt (Nat.two_pow_pos _))
  unfold Binary64.significand
  omega

theorem exact_digits_ne_zero {magnitude : Nat} (h : magnitude ≠ 0) :
    (exact magnitude).digits ≠ 0 := by
  have hpow : ∀ n, Nat.pow 5 n ≠ 0 := fun n => Nat.ne_of_gt (Nat.pow_pos (by decide))
  exact Nat.mul_ne_zero (scaled_ne_zero h) (hpow 1074)

/-- A number that is not zero has digits that are not. -/
theorem shortest_digits_ne_zero (tie : Tie) {magnitude : Nat} (h : magnitude ≠ 0) :
    (shortest tie magnitude).digits ≠ 0 := by
  rw [shortest, if_neg h]
  refine stripZeros_go_digits_ne_zero _ ?_
  cases hfound : (List.range' 1 17).findSome? (candidate? tie magnitude) with
  | some d =>
    obtain ⟨count, -, hcandidate⟩ := List.exists_of_findSome?_eq_some hfound
    have hreads := List.find?_some hcandidate
    intro hzero
    -- Digits of zero would be read as zero, but the candidate is read as the magnitude.
    have hmagnitude : d.nearestMagnitude = 0 := by rw [nearestMagnitude, if_pos (.inl hzero)]
    rw [Option.getD_some] at hzero
    simp [hmagnitude] at hreads
    exact h hreads.symm
  | none => exact exact_digits_ne_zero h

end Decimal

namespace Decimal.Layout

open Numeral

theorem wellWritten_positional (wholePoint negative : Bool) {n : Nat} (place : Int)
    (h : n ≠ 0 ∨ place = 0) :
    (positional wholePoint negative (Nat.toDigits 10 n) place).WellWritten := by
  have hdigits : ∀ c ∈ Nat.toDigits 10 n, c.isDigit = true := fun _ => isDigit_of_mem_toDigits
  have hzeros : ∀ count, ∀ c ∈ List.replicate count '0', c.isDigit = true := by
    intro count c hc
    rw [List.eq_of_mem_replicate hc]
    rfl
  have hne : Nat.toDigits 10 n ≠ [] := Nat.toDigits_ne_nil
  unfold positional
  split
  -- Before the first digit of a number below one stands a zero.
  · refine ⟨by simp, ?_, isStrict_whole (List.cons_ne_nil _ _) (fun _ _ => .inr rfl) ?_⟩
    · rintro digits hmem c hc
      obtain rfl := Option.some.inj hmem
      rcases List.mem_append.1 hc with hc | hc
      · exact hzeros _ c hc
      · exact hdigits c hc
    · simp [hne]
  · next hplace =>
    refine ⟨?_, ?_, isStrict_whole ?_ ?_ ?_⟩
    · intro c hc
      rcases List.mem_append.1 hc with hc | hc
      · exact hdigits c (List.mem_of_mem_take hc)
      · exact hzeros _ c hc
    · rintro digits hmem c hc
      dsimp only at hmem
      split at hmem
      · split at hmem
        · obtain rfl := Option.some.inj hmem
          obtain rfl := List.mem_singleton.1 hc
          rfl
        · cases hmem
      · obtain rfl := Option.some.inj hmem
        exact hdigits c (List.mem_of_mem_drop hc)
    · simp [hne]
    · intro c hc
      rw [List.head?_append, List.head?_take, if_neg (Nat.succ_ne_zero _),
        List.head?_eq_some_head hne, Option.some_or, ← List.head?_eq_some_head hne] at hc
      rcases Nat.eq_zero_or_pos n with rfl | hpos
      · obtain rfl := h.resolve_left (fun hn => hn rfl)
        exact .inr rfl
      · exact .inl (head_toDigits_ne_zero hpos c hc)
    · split
      · split <;> simp
      · next hfraction => simpa using hfraction

theorem wellWritten_scientific (negative : Bool) (n : Nat) (place : Int) :
    (scientific negative (Nat.toDigits 10 n) place).WellWritten := by
  have hdigits : ∀ c ∈ Nat.toDigits 10 n, c.isDigit = true := fun _ => isDigit_of_mem_toDigits
  have hne : Nat.toDigits 10 n ≠ [] := Nat.toDigits_ne_nil
  refine ⟨fun c hc => hdigits c (List.mem_of_mem_take hc), ?_, isStrict_whole ?_ ?_ ?_⟩
  · rintro digits hmem c hc
    dsimp only [scientific] at hmem
    split at hmem
    · cases hmem
    · obtain rfl := Option.some.inj hmem
      exact hdigits c (List.mem_of_mem_drop hc)
  · simp [hne]
  · intro c hc
    obtain ⟨d, digits, hd⟩ := List.exists_cons_of_ne_nil hne
    rw [hd] at hc ⊢
    obtain rfl : d = c := by simpa using hc
    by_cases hzero : d = '0'
    · exact .inr (by rw [hzero]; rfl)
    · exact .inl hzero
  · split
    · simp
    · next hfraction => simpa using hfraction

/-- **Every finite datum is well written** in every layout. -/
theorem wellWritten_numeral (l : Layout) (x : Binary64) : (l.numeral x).WellWritten := by
  unfold numeral layOut
  dsimp only
  split
  · refine wellWritten_positional _ _ _ ?_
    by_cases hzero : x.magnitude = 0
    · right
      simp [hzero, shortest, top, decimalLength]
    · exact .inl (shortest_digits_ne_zero l.tie hzero)
  · exact wellWritten_scientific _ _ _

end Decimal.Layout

end LayeredStore
