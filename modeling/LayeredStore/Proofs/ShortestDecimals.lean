import LayeredStore.Proofs.Numerals
import LayeredStore.Proofs.Rounding

/-! # The fewest digits name the datum

A finite datum is read from its numeral, in whatever layout, if the reader rounds only once
(`Decimal.Layout.toBinary64_numeral`).  So different finite data have different numerals.

The digits that are written were chosen because they read back, or are all the digits there are.
Neither stripping zeros nor a layout changes the number that digits stand for
(`Decimal.nearestMagnitude_tenfold`), and rounding does not depend on how a ratio is written
(`Binary64.nearestMagnitude_mul`).
-/
namespace LayeredStore

namespace Binary64

/-! ### Ratios -/

theorem roundHalfEven_mul {k : Nat} (hk : 0 < k) (num den : Nat) :
    roundHalfEven (k * num) (k * den) = roundHalfEven num den := by
  have hrest : 2 * (k * num % (k * den)) = k * (2 * (num % den)) := by
    rw [Nat.mul_mod_mul_left, Nat.mul_left_comm]
  unfold roundHalfEven
  simp only [hrest, Nat.mul_div_mul_left _ _ hk, Nat.mul_lt_mul_left hk]

/-- **Rounding a ratio does not depend on how the ratio is written.** -/
theorem nearestMagnitude_mul {k : Nat} (hk : 0 < k) (num den : Nat) :
    nearestMagnitude (k * num) (k * den) = nearestMagnitude num den := by
  have hshift : ∀ n s, (k * n) <<< s = k * n <<< s := fun n s => by
    rw [Nat.shiftLeft_eq, Nat.shiftLeft_eq, Nat.mul_assoc]
  unfold nearestMagnitude
  simp only [hshift, Nat.mul_div_mul_left _ _ hk, roundHalfEven_mul hk]

/-! ### Data are rounded to themselves -/

theorem step_mul_binade_le (magnitude : Nat) : step magnitude * binade ≤ magnitude :=
  Nat.le_trans (Nat.mul_le_mul_right binade (Nat.sub_le _ _)) (Nat.div_mul_le_self magnitude binade)

/-- The significand of a datum that is not subnormal has all its bits. -/
theorem significand_bounds {magnitude : Nat} (h : step magnitude ≠ 0) :
    2 ^ 52 ≤ significand magnitude ∧ significand magnitude < 2 ^ 53 := by
  have hsplit := Nat.div_add_mod magnitude binade
  have hmod : magnitude % binade < binade := Nat.mod_lt _ (by decide)
  simp only [significand, step, binade] at *
  omega

theorem scaled_le {magnitude most : Nat} (h : step magnitude ≤ most) :
    scaled magnitude ≤ 2 ^ (53 + most) := by
  have hsignificand : significand magnitude < 2 ^ 53 := by
    by_cases hstep : step magnitude = 0
    · simp only [significand, step, binade] at *
      omega
    · exact (significand_bounds hstep).2
  rw [scaled, Nat.shiftLeft_eq, Nat.pow_add]
  exact Nat.mul_le_mul (Nat.le_of_lt hsignificand) (Nat.pow_le_pow_right (by decide) h)

/-- The bits of a datum that rounding takes off are those that its step has put on. -/
theorem excess_scaled (magnitude : Nat) : excess (scaled magnitude) = step magnitude := by
  by_cases hstep : step magnitude = 0
  · have hsmall : magnitude < 2 ^ 53 := by
      unfold step at hstep
      simp only [binade] at hstep
      omega
    have hlog : magnitude.log2 < 53 := by
      by_cases hzero : magnitude = 0
      · rw [hzero, Nat.log2_zero]
        decide
      · exact (Nat.log2_lt hzero).2 hsmall
    rw [scaled, significand, hstep, Nat.zero_mul, Nat.sub_zero, Nat.shiftLeft_zero, excess]
    omega
  · obtain ⟨hlow, hhigh⟩ := significand_bounds hstep
    have hne : scaled magnitude ≠ 0 := by
      rw [scaled, Nat.shiftLeft_eq]
      exact Nat.mul_ne_zero (by omega) (Nat.ne_of_gt (Nat.two_pow_pos _))
    have hlog : (scaled magnitude).log2 = 52 + step magnitude := by
      rw [Nat.log2_eq_iff hne, scaled, Nat.shiftLeft_eq, Nat.pow_add, Nat.add_right_comm,
        Nat.pow_add]
      exact ⟨Nat.mul_le_mul_right _ hlow, Nat.mul_lt_mul_of_pos_right hhigh (Nat.two_pow_pos _)⟩
    rw [excess, hlog, Nat.add_sub_cancel_left]

/-- In whatever units a datum is counted, it is rounded to itself. -/
theorem unboundedMagnitude_scaled (magnitude shift : Nat) :
    unboundedMagnitude (scaled magnitude <<< shift) (2 ^ shift) = magnitude := by
  have hpos : 0 < 2 ^ shift := Nat.two_pow_pos _
  have hgrid : 0 < 2 ^ step magnitude * 2 ^ shift := Nat.mul_pos (Nat.two_pow_pos _) hpos
  have hunits : scaled magnitude <<< shift / 2 ^ shift = scaled magnitude := by
    rw [Nat.shiftLeft_eq, Nat.mul_div_cancel _ hpos]
  have hden : 2 ^ shift <<< step magnitude = 2 ^ step magnitude * 2 ^ shift := by
    rw [Nat.shiftLeft_eq, Nat.mul_comm]
  have hnum : scaled magnitude <<< shift =
      significand magnitude * (2 ^ step magnitude * 2 ^ shift) := by
    rw [Nat.shiftLeft_eq, scaled, Nat.shiftLeft_eq, Nat.mul_assoc]
  have hround : roundHalfEven (scaled magnitude <<< shift) (2 ^ shift <<< step magnitude) =
      significand magnitude := by
    rw [hden, hnum, roundHalfEven_of_dvd (Nat.dvd_mul_left ..) hgrid, Nat.mul_div_cancel _ hgrid]
  rw [unboundedMagnitude, hunits, excess_scaled, hround, significand]
  exact Nat.add_sub_cancel' (step_mul_binade_le magnitude)

/-- **A finite datum is rounded to itself.** -/
theorem nearestMagnitude_scaled {magnitude : Nat} (h : magnitude ≤ infinityMagnitude) :
    nearestMagnitude (scaled magnitude) (2 ^ 1074) = magnitude := by
  rw [nearestMagnitude_eq, unboundedMagnitude_scaled]
  exact Nat.min_eq_left h

end Binary64

namespace Decimal

/-! ### Digits and their places -/

theorem decimalLength_tenfold {n : Nat} (h : n ≠ 0) :
    decimalLength (10 * n) = decimalLength n + 1 := by
  have happend := Nat.toDigits_append_toDigits (b := 10) (by decide) (Nat.pos_of_ne_zero h)
    (show 0 < 10 by decide)
  rw [decimalLength, ← Nat.add_zero (10 * n), ← happend, List.length_append, Nat.toDigits_zero]
  rfl

/-- **Ten times as many digits, counted one place lower, are the same number.** -/
theorem nearestMagnitude_tenfold (n : Nat) (e : Int) :
    nearestMagnitude ⟨10 * n, e - 1⟩ = nearestMagnitude ⟨n, e⟩ := by
  by_cases hn : n = 0
  · simp only [nearestMagnitude, hn, Nat.mul_zero, true_or, if_true]
  have htop : top ⟨10 * n, e - 1⟩ = top ⟨n, e⟩ := by
    simp only [top, decimalLength_tenfold hn]
    omega
  have hratio :
      Binary64.nearestMagnitude (numerator ⟨10 * n, e - 1⟩) (denominator ⟨10 * n, e - 1⟩) =
        Binary64.nearestMagnitude (numerator ⟨n, e⟩) (denominator ⟨n, e⟩) := by
    rcases Int.lt_or_le 0 e with hpos | hneg
    -- With a whole power of ten left, the tenth moves from it to the digits.
    · have hnum : e.toNat = (e - 1).toNat + 1 := by omega
      have hden : (-(e - 1)).toNat = (-e).toNat := by omega
      simp only [numerator, denominator, hnum, hden, Nat.pow_eq, Nat.pow_succ, Nat.mul_comm 10 n,
        Nat.mul_assoc, Nat.mul_comm 10]
    -- Otherwise numerator and denominator are both ten times as great.
    · have hnum : (e - 1).toNat = e.toNat := by omega
      have hden : (-(e - 1)).toNat = (-e).toNat + 1 := by omega
      simp only [numerator, denominator, hnum, hden, Nat.pow_eq, Nat.pow_succ, Nat.mul_assoc,
        Nat.mul_comm _ 10]
      exact Binary64.nearestMagnitude_mul (by decide) _ _
  have hdigits : 10 * n ≠ 0 := by omega
  simp only [nearestMagnitude, htop, hratio, hn, hdigits, false_or]

/-- Zeros after the digits make up for a lower place. -/
theorem nearestMagnitude_zeros (count n : Nat) (e : Int) :
    nearestMagnitude ⟨10 ^ count * n, e - count⟩ = nearestMagnitude ⟨n, e⟩ := by
  induction count with
  | zero => simp
  | succ count ih =>
    rw [← ih, ← nearestMagnitude_tenfold (10 ^ count * n), Nat.pow_succ, Nat.mul_comm (10 ^ count),
      Nat.mul_assoc]
    congr 2
    omega

/-- Stripping zeros leaves the number as it is. -/
theorem nearestMagnitude_stripZeros (d : Decimal) :
    d.stripZeros.nearestMagnitude = d.nearestMagnitude := by
  rw [stripZeros]
  generalize decimalLength d.digits = count
  induction count generalizing d with
  | zero => rfl
  | succ count ih =>
    rw [stripZeros.go]
    split
    · next hzero =>
      have hdigits : 10 * (d.digits / 10) = d.digits := by omega
      rw [ih, ← nearestMagnitude_tenfold, hdigits, Int.add_sub_cancel]
    · rfl

/-! ### The digits that are written -/

/-- The place of the first digit is told by powers of ten around the digits. -/
theorem top_bounds {d : Decimal} {low high : Nat} (hlow : 10 ^ (low + 1) ≤ d.digits)
    (hhigh : d.digits < 10 ^ (high + 1)) :
    low + d.exponent < d.top ∧ d.top ≤ high + 1 + d.exponent := by
  have hmany := mt (Nat.length_toDigits_le_iff (b := 10) (by decide) (Nat.succ_pos low)).1
    (Nat.not_lt.2 hlow)
  have hfew := (Nat.length_toDigits_le_iff (b := 10) (by decide) (Nat.succ_pos high)).2 hhigh
  unfold top decimalLength
  omega

/-- The exact digits of a finite datum are not so many that their number is told by its place. -/
theorem top_exact {magnitude : Nat} (hzero : magnitude ≠ 0)
    (h : magnitude < Binary64.infinityMagnitude) :
    -330 ≤ (exact magnitude).top ∧ (exact magnitude).top ≤ 310 := by
  have hstep : Binary64.step magnitude ≤ 2045 := by
    simp only [Binary64.step, Binary64.infinityMagnitude, Binary64.binade] at *
    omega
  have hpos : 0 < Binary64.scaled magnitude := Nat.pos_of_ne_zero (scaled_ne_zero hzero)
  have hscaled := Binary64.scaled_le hstep
  have hleast : 10 ^ (749 + 1) ≤ Nat.pow 5 1074 := by decide +kernel
  have hmost : 2 ^ (53 + 2045) * Nat.pow 5 1074 < 10 ^ (1383 + 1) := by decide +kernel
  obtain ⟨hlow, hhigh⟩ := top_bounds (d := exact magnitude)
    (Nat.le_trans hleast (Nat.le_mul_of_pos_left _ hpos))
    (Nat.lt_of_le_of_lt (Nat.mul_le_mul_right _ hscaled) hmost)
  have hexponent : (exact magnitude).exponent = -1074 := rfl
  omega

/-- A count of halves is a count of tenths. -/
theorem nearestMagnitude_fives {d : Decimal} {count places : Nat}
    (hdigits : d.digits = count * Nat.pow 5 places) (hexponent : d.exponent = -(places : Int)) :
    Binary64.nearestMagnitude d.numerator d.denominator =
      Binary64.nearestMagnitude count (2 ^ places) := by
  have hwhole : (-(places : Int)).toNat = 0 := by omega
  have hten : Nat.pow 10 places = 5 ^ places * 2 ^ places := Nat.mul_pow 5 2 places
  simp only [numerator, denominator, hdigits, hexponent, hwhole, Int.neg_neg, Int.toNat_natCast,
    hten]
  rw [← Binary64.nearestMagnitude_mul (Nat.pow_pos (show 0 < 5 by decide)) count (2 ^ places),
    Nat.mul_comm (5 ^ places) count]
  exact congrArg (Binary64.nearestMagnitude · _) (Nat.mul_one _)

theorem exact_digits (magnitude : Nat) :
    (exact magnitude).digits = Binary64.scaled magnitude * Nat.pow 5 1074 := rfl

/-- All digits of a finite datum are read back. -/
theorem nearestMagnitude_exact {magnitude : Nat} (hzero : magnitude ≠ 0)
    (h : magnitude < Binary64.infinityMagnitude) :
    (exact magnitude).nearestMagnitude = magnitude := by
  obtain ⟨hlow, hhigh⟩ := top_exact hzero h
  have hdigits := exact_digits_ne_zero hzero
  rw [nearestMagnitude, if_neg (by omega), if_neg (by omega),
    nearestMagnitude_fives (exact_digits magnitude) rfl,
    Binary64.nearestMagnitude_scaled (Nat.le_of_lt h)]

/-- **The fewest digits are read back.** -/
theorem nearestMagnitude_shortest (tie : Tie) {magnitude : Nat}
    (h : magnitude < Binary64.infinityMagnitude) :
    (shortest tie magnitude).nearestMagnitude = magnitude := by
  rw [shortest]
  split
  · next hzero =>
    rw [hzero]
    rfl
  · next hzero =>
    rw [nearestMagnitude_stripZeros]
    cases hfound : (List.range' 1 17).findSome? (candidate? tie magnitude) with
    | some d =>
      obtain ⟨count, -, hcandidate⟩ := List.exists_of_findSome?_eq_some hfound
      exact eq_of_beq (List.find?_some hcandidate :)
    | none => exact nearestMagnitude_exact hzero h

end Decimal

/-! ### Layouts keep the number -/

namespace Numeral

theorem digitsValue_zeros_append (count : Nat) (digits : List Char) :
    digitsValue (List.replicate count '0' ++ digits) = digitsValue digits := by
  have hzeros : digitsValue (List.replicate count '0') = 0 :=
    Nat.ofDigitChars_replicate_zero.trans (Nat.mul_zero _)
  rw [digitsValue, List.foldl_append, ← digitsValue, hzeros]
  rfl

theorem digitsValue_append_zeros (digits : List Char) (count : Nat) :
    digitsValue (digits ++ List.replicate count '0') = 10 ^ count * digitsValue digits := by
  rw [digitsValue, List.foldl_append]
  exact Nat.ofDigitChars_replicate_zero

end Numeral

namespace Decimal.Layout

open Numeral

/-- Zeros before the digits of a number below one are no part of it. -/
theorem decimal_positional_of_neg (wholePoint negative : Bool) {d : Decimal} (h : d.top - 1 < 0) :
    (positional wholePoint negative (Nat.toDigits 10 d.digits) (d.top - 1)).decimal = d := by
  obtain ⟨n, e⟩ := d
  have hdigits : digitsValue ('0' :: (List.replicate ((-(top ⟨n, e⟩ - 1)).toNat - 1) '0' ++
      Nat.toDigits 10 n)) = n := by
    rw [← List.cons_append, ← List.replicate_succ, digitsValue_zeros_append, digitsValue_toDigits]
  rw [positional, if_pos h]
  simp only [decimal, fraction, Option.getD_some, Option.getD_none, List.singleton_append, hdigits,
    List.length_append, List.length_replicate, Decimal.mk.injEq, true_and]
  simp only [top, decimalLength] at *
  omega

/-- Zeros after the digits of a great number make up for its places. -/
theorem nearestMagnitude_positional (wholePoint negative : Bool) {d : Decimal}
    (h : ¬d.top - 1 < 0) :
    nearestMagnitude
        (positional wholePoint negative (Nat.toDigits 10 d.digits) (d.top - 1)).decimal =
      d.nearestMagnitude := by
  obtain ⟨n, e⟩ := d
  have hvalue := digitsValue_toDigits n
  have hwidth : (((top ⟨n, e⟩ - 1).toNat + 1 : Nat) : Int) = (Nat.toDigits 10 n).length + e := by
    simp only [top, decimalLength] at *
    omega
  rw [positional, if_neg h]
  dsimp only
  generalize (top ⟨n, e⟩ - 1).toNat + 1 = width at *
  generalize Nat.toDigits 10 n = digits at *
  split
  -- The digits end before the point: what is missing are zeros.
  · next hempty =>
    have hshort : digits.length ≤ width := by simpa using hempty
    obtain ⟨count, rfl⟩ := Nat.exists_eq_add_of_le hshort
    have hzeros : digitsValue (digits ++ List.replicate count '0') = 10 ^ count * n := by
      rw [digitsValue_append_zeros, hvalue]
    have he : e - count = 0 := by omega
    have hcount := nearestMagnitude_zeros count n e
    rw [he] at hcount
    rw [← hcount, List.take_of_length_le hshort, Nat.add_sub_cancel_left]
    cases wholePoint with
    | false => simp [decimal, fraction, hzeros]
    | true =>
      have hpoint : digitsValue (digits ++ (List.replicate count '0' ++ ['0'])) =
          10 * (10 ^ count * n) := by
        rw [← List.append_assoc, ← hzeros]
        exact digitsValue_append_zeros _ 1
      rw [← nearestMagnitude_tenfold (10 ^ count * n) 0]
      simp [decimal, fraction, hpoint]
  · next hmore =>
    have hlong : width < digits.length := by simpa using hmore
    have hwhole : digits.take width ++ List.replicate (width - digits.length) '0' ++
        digits.drop width = digits := by
      rw [Nat.sub_eq_zero_of_le (Nat.le_of_lt hlong), List.replicate_zero, List.append_nil,
        List.take_append_drop]
    simp only [decimal, fraction, Option.getD_some, Option.getD_none, hwhole, hvalue,
      List.length_drop]
    congr 2
    omega

theorem decimal_scientific (negative : Bool) (d : Decimal) :
    (scientific negative (Nat.toDigits 10 d.digits) (d.top - 1)).decimal = d := by
  obtain ⟨n, e⟩ := d
  have hjoin : (Nat.toDigits 10 n).take 1 ++ (Nat.toDigits 10 n).drop 1 = Nat.toDigits 10 n :=
    List.take_append_drop 1 _
  have hpos : 0 < (Nat.toDigits 10 n).length := Nat.length_toDigits_pos
  have hfraction : (scientific negative (Nat.toDigits 10 n) (top ⟨n, e⟩ - 1)).fraction =
      (Nat.toDigits 10 n).drop 1 := by
    simp only [scientific, fraction]
    split
    · next hempty => exact (List.isEmpty_iff.1 hempty).symm
    · rfl
  rw [decimal, hfraction]
  simp only [scientific, hjoin, digitsValue_toDigits, Option.getD_some, List.length_drop,
    Decimal.mk.injEq, true_and, top, decimalLength]
  omega

/-- **A layout keeps the number.** -/
theorem nearestMagnitude_layOut (l : Layout) (negative : Bool) (d : Decimal) :
    (l.layOut negative d).decimal.nearestMagnitude = d.nearestMagnitude := by
  unfold layOut
  dsimp only
  split
  · rcases Int.lt_or_le (d.top - 1) 0 with hneg | hpos
    · rw [decimal_positional_of_neg _ _ hneg]
    · exact nearestMagnitude_positional _ _ (Int.not_lt.2 hpos)
  · rw [decimal_scientific]

theorem negative_numeral (l : Layout) (x : Binary64) : (l.numeral x).negative = x.negative := by
  unfold numeral layOut positional scientific
  dsimp only
  split
  · split <;> rfl
  · rfl

/-- **A finite datum is what its numeral stands for**, in every layout. -/
theorem toBinary64_numeral (l : Layout) {x : Binary64} (h : x.isFinite = true) :
    (l.numeral x).toBinary64 = x := by
  obtain ⟨negative, magnitude, hlt⟩ := x
  have hfinite : magnitude < Binary64.infinityMagnitude := of_decide_eq_true h
  have hread : (l.numeral ⟨negative, magnitude, hlt⟩).decimal.nearestMagnitude = magnitude :=
    (nearestMagnitude_layOut l negative _).trans (nearestMagnitude_shortest l.tie hfinite)
  simp only [Numeral.toBinary64, nearest, negative_numeral, hread]

/-- Different finite data have different numerals. -/
theorem numeral_inj (l : Layout) {x y : Binary64} (hx : x.isFinite = true)
    (hy : y.isFinite = true) : l.numeral x = l.numeral y ↔ x = y := by
  refine ⟨fun h => ?_, congrArg _⟩
  rw [← l.toBinary64_numeral hx, h, l.toBinary64_numeral hy]

end Decimal.Layout
end LayeredStore
