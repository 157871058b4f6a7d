import LayeredStore.Proofs.ExpiringMap
import Mathlib.Algebra.Group.Int.Defs

/-! # Lifespans

What is written to live for a number of seconds expires at the sum of clock and lifespan, or at
the last second there is if the sum lies beyond (`toInt_expiryAfter`).  With a clock that is not
negative the sum is positive, so it is never taken for the expiry of what lives for ever
(`expiryAfter_pos`).  It is the time from which on an entry counts as expired
(`isExpired_expiryAfter`), and longer lifespans end no sooner (`expiryAfter_mono`).
-/
namespace LayeredStore

theorem isExpired_never (t : Int64) : isExpired neverExpires t = false := rfl

@[simp] theorem expiryAfter_zero (now : Int64) : expiryAfter now 0 = neverExpires := rfl

section

variable {now : Int64} {lifespan : UInt64} (hnow : 0 ≤ now) (hne : lifespan ≠ 0)

include hnow hne

/-- **The sum of clock and lifespan does not overflow.** -/
theorem toInt_expiryAfter :
    (expiryAfter now lifespan).toInt = min (now.toInt + lifespan.toNat) (2 ^ 63 - 1) := by
  have hclock : 0 ≤ now.toInt := Int64.le_iff_toInt_le.1 hnow
  have hlast := Int64.toInt_maxValue
  unfold expiryAfter
  rw [if_neg hne, Int64.toInt_ofInt_of_le] <;> rw [hlast] <;> omega

/-- The end of a lifespan is not taken for no end at all. -/
theorem expiryAfter_pos : neverExpires < expiryAfter now lifespan := by
  have hclock : 0 ≤ now.toInt := Int64.le_iff_toInt_le.1 hnow
  have hpos : lifespan.toNat ≠ 0 := fun hzero => hne (UInt64.toNat_inj.1 hzero)
  have hsum : 0 < min (now.toInt + (lifespan.toNat : Int)) (2 ^ 63 - 1) := by omega
  rw [Int64.lt_iff_toInt_lt, toInt_expiryAfter hnow hne]
  exact hsum

/-- **What has a lifespan is expired from its end on.** -/
theorem isExpired_expiryAfter (t : Int64) :
    isExpired (expiryAfter now lifespan) t = true ↔
      min (now.toInt + lifespan.toNat) (2 ^ 63 - 1) ≤ t.toInt := by
  rw [← toInt_expiryAfter hnow hne, ← Int64.le_iff_toInt_le]
  simp [isExpired, expiryAfter_pos hnow hne]

/-- At the time of writing only the last second of all is too late. -/
theorem isExpired_expiryAfter_self :
    isExpired (expiryAfter now lifespan) now = true ↔ now = Int64.maxValue := by
  constructor
  · intro hexpired
    refine Decidable.byContradiction fun hlast => ?_
    have hlt : now < Int64.maxValue := Int64.lt_of_le_of_ne (Int64.le_maxValue now) hlast
    rw [not_isExpired_expiryAfter hlt] at hexpired
    cases hexpired
  · rintro rfl
    rw [isExpired_expiryAfter hnow hne, Int64.toInt_maxValue]
    omega

/-- **A longer lifespan ends no sooner.** -/
theorem expiryAfter_mono {longer : UInt64} (hle : lifespan ≤ longer) :
    expiryAfter now lifespan ≤ expiryAfter now longer := by
  have hnat : lifespan.toNat ≤ longer.toNat := UInt64.le_iff_toNat_le.1 hle
  have hlonger : longer ≠ 0 := by
    rintro rfl
    exact hne (UInt64.toNat_inj.1 (Nat.le_zero.1 hnat))
  rw [Int64.le_iff_toInt_le, toInt_expiryAfter hnow hne, toInt_expiryAfter hnow hlonger]
  omega

end

/-- **Lifespans never overflow and mean what they say**, for a clock that is not negative.  What
has none is never expired.  What has one is expired just from the sum of clock and lifespan on,
counted without overflow, or from the last second there is; so it is live when it is written,
but in that second, and when a longer lifespan has ended a shorter one has too. -/
theorem lifespans_exact {now : Int64} (hnow : 0 ≤ now) (lifespan : UInt64) :
    (lifespan = 0 → ∀ t, isExpired (expiryAfter now lifespan) t = false) ∧
      (lifespan ≠ 0 →
        (∀ t : Int64, isExpired (expiryAfter now lifespan) t = true ↔
          min (now.toInt + lifespan.toNat) (2 ^ 63 - 1) ≤ t.toInt) ∧
        (isExpired (expiryAfter now lifespan) now = true ↔ now = Int64.maxValue) ∧
        ∀ longer t, lifespan ≤ longer → isExpired (expiryAfter now longer) t = true →
          isExpired (expiryAfter now lifespan) t = true) := by
  refine ⟨?_, fun hne => ⟨isExpired_expiryAfter hnow hne, isExpired_expiryAfter_self hnow hne, ?_⟩⟩
  · rintro rfl t
    rw [expiryAfter_zero]
    exact isExpired_never t
  · intro longer t hle hexpired
    have hmono := expiryAfter_mono hnow hne hle
    simp only [isExpired, Bool.and_eq_true, decide_eq_true_eq] at hexpired ⊢
    exact ⟨expiryAfter_pos hnow hne, Int64.le_trans hmono hexpired.2⟩

/-- One second before the last, the longest lifespan ends in the last second. -/
theorem lifespans_exact_longest :
    (0 : Int64) ≤ 9223372036854775806 ∧ (18446744073709551615 : UInt64) ≠ 0 ∧
      isExpired (expiryAfter 9223372036854775806 18446744073709551615) 9223372036854775806 = false ∧
      isExpired (expiryAfter 9223372036854775806 18446744073709551615) 9223372036854775807 = true :=
  by
  have hnow : (0 : Int64) ≤ 9223372036854775806 := by decide
  have hne : (18446744073709551615 : UInt64) ≠ 0 := by decide
  have hexact := (lifespans_exact hnow 18446744073709551615).2 hne
  refine ⟨hnow, hne, ?_, (hexact.1 9223372036854775807).2 (by decide)⟩
  rw [← Bool.not_eq_true, hexact.2.1]
  decide

end LayeredStore
