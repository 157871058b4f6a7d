import LayeredStore.Binary64
import Mathlib.Algebra.Group.Nat.Defs

/-! # Rounding keeps the order

`Binary64.nearestMagnitude_mono` says that a greater ratio is never rounded to a smaller
datum.  Within a binade this is rounding to whole numbers (`roundHalfEven_mono`), and what is
rounded in one binade stays at or below what is rounded in the next (`magnitude_le_next`,
`next_le_magnitude`).

For whole numbers this means that their data are in their order (`place_ofInt_mono`), though
different whole numbers may share a datum.
-/
namespace LayeredStore.Binary64

/-! ### Rounding to whole numbers -/

theorem div_le_roundHalfEven (num den : Nat) : num / den ≤ roundHalfEven num den := by
  unfold roundHalfEven
  dsimp only
  split
  · omega
  · split <;> omega

theorem roundHalfEven_le_succ (num den : Nat) : roundHalfEven num den ≤ num / den + 1 := by
  unfold roundHalfEven
  dsimp only
  split
  · omega
  · split <;> omega

theorem roundHalfEven_mono {a b : Nat} (h : a ≤ b) (den : Nat) :
    roundHalfEven a den ≤ roundHalfEven b den := by
  have hdiv : a / den ≤ b / den := Nat.div_le_div_right h
  rcases Nat.lt_or_eq_of_le hdiv with hlt | heq
  · have ha := roundHalfEven_le_succ a den
    have hb := div_le_roundHalfEven b den
    omega
  -- With the same whole part the remainders are in order.
  · have hmod : a % den ≤ b % den := by
      have ha := Nat.div_add_mod a den
      have hb := Nat.div_add_mod b den
      rw [heq] at ha
      omega
    unfold roundHalfEven
    dsimp only
    rw [heq]
    split <;> split <;> (try split) <;> (try split) <;> omega

theorem roundHalfEven_of_dvd {num den : Nat} (h : den ∣ num) (hpos : 0 < den) :
    roundHalfEven num den = num / den := by
  unfold roundHalfEven
  rw [Nat.mod_eq_zero_of_dvd h]
  exact if_pos hpos

/-! ### Rounding to 53 bits -/

/-- How many bits of a count of units are rounded away. -/
def excess (count : Nat) : Nat := count.log2 - 52

/-- The magnitude nearest to a ratio of units, were there no infinity. -/
def unboundedMagnitude (units den : Nat) : Nat :=
  excess (units / den) * binade + roundHalfEven units (den <<< excess (units / den))

theorem nearestMagnitude_eq (num den : Nat) :
    nearestMagnitude num den = min (unboundedMagnitude (num <<< 1074) den) infinityMagnitude :=
  rfl

theorem excess_mono {a b : Nat} (h : a ≤ b) : excess a ≤ excess b := by
  unfold excess
  by_cases ha : a = 0
  · rw [ha, Nat.log2_zero]
    omega
  · have hlog : a.log2 ≤ b.log2 :=
      (Nat.le_log2 (by omega)).2 (Nat.le_trans (Nat.log2_self_le ha) h)
    omega

/-- What is left of a count has at most 53 bits. -/
theorem kept_lt (count : Nat) : count / 2 ^ excess count < 2 ^ 53 := by
  rw [Nat.div_lt_iff_lt_mul (Nat.two_pow_pos _), ← Nat.pow_add]
  refine Nat.lt_of_lt_of_le Nat.lt_log2_self (Nat.pow_le_pow_right (by decide) ?_)
  unfold excess
  omega

/-- Of a count with bits to round away, the hidden bit is left. -/
theorem le_kept {count : Nat} (h : 0 < excess count) : 2 ^ 52 ≤ count / 2 ^ excess count := by
  have hlog : 52 + excess count = count.log2 := by
    unfold excess at *
    omega
  have hne : count ≠ 0 := by
    intro hzero
    rw [hzero] at h
    exact absurd h (by decide)
  rw [Nat.le_div_iff_mul_le (Nat.two_pow_pos _), ← Nat.pow_add, hlog]
  exact Nat.log2_self_le hne

theorem div_shiftLeft (units den shift : Nat) :
    units / (den <<< shift) = units / den / 2 ^ shift := by
  rw [Nat.shiftLeft_eq, Nat.div_div_eq_div_mul]

/-- A ratio is rounded into its binade or onto the first magnitude of the next. -/
theorem magnitude_le_next (units den : Nat) :
    unboundedMagnitude units den ≤ (excess (units / den) + 2) * binade := by
  have hround := roundHalfEven_le_succ units (den <<< excess (units / den))
  have hkept := kept_lt (units / den)
  rw [div_shiftLeft] at hround
  unfold unboundedMagnitude
  simp only [binade] at *
  omega

theorem next_le_magnitude {units den : Nat} (h : 0 < excess (units / den)) :
    (excess (units / den) + 1) * binade ≤ unboundedMagnitude units den := by
  have hround := div_le_roundHalfEven units (den <<< excess (units / den))
  have hkept := le_kept h
  rw [div_shiftLeft] at hround
  unfold unboundedMagnitude
  simp only [binade] at *
  omega

theorem unboundedMagnitude_mono {a b : Nat} (h : a ≤ b) (den : Nat) :
    unboundedMagnitude a den ≤ unboundedMagnitude b den := by
  have hdiv : a / den ≤ b / den := Nat.div_le_div_right h
  rcases Nat.lt_or_eq_of_le (excess_mono hdiv) with hlt | heq
  · calc unboundedMagnitude a den
        ≤ (excess (a / den) + 2) * binade := magnitude_le_next a den
      _ ≤ (excess (b / den) + 1) * binade := Nat.mul_le_mul_right _ (by omega)
      _ ≤ unboundedMagnitude b den := next_le_magnitude (by omega)
  · unfold unboundedMagnitude
    rw [heq]
    exact Nat.add_le_add_left (roundHalfEven_mono h _) _

/-- **Rounding keeps the order.** -/
theorem nearestMagnitude_mono {a b : Nat} (h : a ≤ b) (den : Nat) :
    nearestMagnitude a den ≤ nearestMagnitude b den := by
  have hunits : a <<< 1074 ≤ b <<< 1074 := by
    rw [Nat.shiftLeft_eq, Nat.shiftLeft_eq]
    exact Nat.mul_le_mul_right _ h
  have := unboundedMagnitude_mono hunits den
  rw [nearestMagnitude_eq, nearestMagnitude_eq]
  omega

/-! ### Places of whole numbers -/

/-- Different data have different places in the total order. -/
theorem place_inj {x y : Binary64} : x.place = y.place ↔ x = y := by
  constructor
  · obtain ⟨s, m, hm⟩ := x
    obtain ⟨t, n, hn⟩ := y
    intro h
    cases s <;> cases t <;> simp [place] at h ⊢ <;> omega
  · rintro rfl
    rfl

theorem place_ofInt (n : Int) :
    (ofInt n).place =
      if n < 0 then -1 - (nearestMagnitude n.natAbs 1 : Int) else nearestMagnitude n.natAbs 1 := by
  unfold ofInt nearest place
  by_cases hn : n < 0 <;> simp [hn]

/-- **The data of whole numbers are in their order.** -/
theorem place_ofInt_mono {m n : Int} (h : m ≤ n) : (ofInt m).place ≤ (ofInt n).place := by
  rw [place_ofInt, place_ofInt]
  by_cases hm : m < 0
  · by_cases hn : n < 0
    · have := nearestMagnitude_mono (show n.natAbs ≤ m.natAbs by omega) 1
      omega
    · omega
  · have := nearestMagnitude_mono (show m.natAbs ≤ n.natAbs by omega) 1
    omega

end LayeredStore.Binary64
