import LayeredStore.Proofs.Rounding
import LayeredStore.Value.Comparison
import Mathlib.Data.Set.Defs

/-! # The order of values

What sorting asks of a comparison is `OrdersTotally`.  The comparison of values would satisfy
it if it went by what a value shows, `Value.viewCompare`: rank, number, text, bytes, length.
But two integers are compared exactly, while against any other value an integer counts as
its rounded number and, among equal numbers, as its text.  The two rules disagree on
integers that share a number (`viewCompare_integer`), and a value between their texts then
closes a circle: it `Straddles` them.

`sortCompare_ordersTotally_iff` says that this is the only defect.
-/
namespace LayeredStore

/-- What sorting asks of a comparison on the items of a set: that it looks the same from
both sides, and that going up twice is going up. -/
structure OrdersTotally {α : Type} (cmp : α → α → Ordering) (s : Set α) : Prop where
  swapped : ∀ a ∈ s, ∀ b ∈ s, cmp b a = (cmp a b).swap
  chained : ∀ a ∈ s, ∀ b ∈ s, ∀ c ∈ s, cmp a b ≠ .gt → cmp b c ≠ .gt →
    cmp a c ≠ .gt ∧ (cmp a b = .lt ∨ cmp b c = .lt → cmp a c = .lt)

namespace Value

/-! ### Comparing by what values show -/

/-- The place of the number among all data. -/
def place? (v : Value) : Option Int := v.number?.map Binary64.place

/-- The bytes of a blob, none for other values. -/
def bytes : Value → Bytes
  | .blob bytes => bytes
  | _ => []

/-- The length of a list, zero for other values. -/
def size : Value → Nat
  | .list items => items.length
  | _ => 0

/-- The comparison that treats integers as it treats other values. -/
def viewCompare : Value → Value → Ordering :=
  compareLex (compareOn rank) <| compareLex (compareOn place?) <| compareLex (compareOn text?) <|
    compareLex (compareOn bytes) (compareOn size)

theorem viewCompare_eq (a b : Value) :
    a.viewCompare b = (compare a.rank b.rank).then ((compare a.place? b.place?).then
      ((compare a.text? b.text?).then ((compare a.bytes b.bytes).then (compare a.size b.size)))) :=
  rfl

instance : Std.TransCmp viewCompare := by
  unfold viewCompare
  infer_instance

theorem viewCompare_swap (a b : Value) : b.viewCompare a = (a.viewCompare b).swap :=
  Std.OrientedCmp.eq_swap

theorem viewCompare_self (a : Value) : a.viewCompare a = .eq := Std.ReflCmp.compare_self

theorem compareText_eq (s t : Option String) : compareText s t = compare s t := by
  cases s <;> cases t <;> rfl

theorem sortCompare_integer (i j : Int64) :
    (integer i).sortCompare (integer j) = compare i j := rfl

theorem rank_eq_zero_iff (v : Value) : v.rank = 0 ↔ v.number?.isSome = true := by
  cases v with
  | text s => cases h : (text s).number? <;> simp [rank, h]
  | _ => simp [rank, number?]

theorem rank_of_number? {v : Value} {x : Binary64} (h : v.number? = some x) : v.rank = 0 := by
  rw [rank_eq_zero_iff, h]
  rfl

/-- A value is a blob, a list, or has neither bytes nor items. -/
theorem plain_or_blob_or_list (v : Value) :
    (v.rank < 2 ∧ v.bytes = [] ∧ v.size = 0) ∨ (∃ x, v = blob x ∧ v.rank = 2) ∨
      ∃ items, v = list items ∧ v.rank = 3 := by
  cases v with
  | blob x => exact .inr (.inl ⟨x, rfl, rfl⟩)
  | list items => exact .inr (.inr ⟨items, rfl, rfl⟩)
  | text s =>
    refine .inl ⟨?_, rfl, rfl⟩
    simp only [rank]
    split <;> decide
  | _ => exact .inl ⟨by simp [rank, number?], rfl, rfl⟩

/-- Values of one rank are numbers both or neither, so nothing is left undecided. -/
theorem numeric_eq {a b : Value} (h : a.rank = b.rank) :
    (match a.number?, b.number? with
      | some x, some y => x.totalCompare y
      | _, _ => .eq) = compare a.place? b.place? := by
  have hsome : a.number?.isSome = true ↔ b.number?.isSome = true := by
    rw [← rank_eq_zero_iff, ← rank_eq_zero_iff, h]
  unfold place?
  cases ha : a.number? <;> cases hb : b.number? <;> simp [ha, hb] at hsome <;> rfl

theorem compare_then_of_ne {m n : Nat} (h : m ≠ n) (rest : Ordering) :
    (compare m n).then rest = compare m n := by
  rcases Nat.lt_or_gt_of_ne h with hlt | hgt
  · rw [Nat.compare_eq_lt.2 hlt]
    rfl
  · rw [Nat.compare_eq_gt.2 hgt]
    rfl

theorem sortCompare_of_rank_lt_two {a b : Value} (h : ∀ i j, ¬(a = integer i ∧ b = integer j))
    (ha : a.rank < 2) (hrank : a.rank = b.rank) :
    a.sortCompare b = (compare a.place? b.place?).then (compare a.text? b.text?) := by
  rw [← numeric_eq hrank, ← compareText_eq]
  unfold sortCompare
  rw [Nat.compare_eq_eq.2 hrank, Ordering.eq_then]
  split
  · exact absurd ⟨rfl, rfl⟩ (h _ _)
  · rw [rank] at ha
    exact absurd ha (by decide)
  · rw [rank] at ha
    exact absurd ha (by decide)
  · rfl

/-- A comparison in which no two integers meet goes by what the values show. -/
theorem sortCompare_eq_viewCompare {a b : Value} (h : ∀ i j, ¬(a = integer i ∧ b = integer j)) :
    a.sortCompare b = a.viewCompare b := by
  rw [viewCompare_eq]
  by_cases hrank : a.rank = b.rank
  · rw [hrank, Nat.compare_eq_eq.2 rfl]
    rcases plain_or_blob_or_list a with ⟨ha, hbytes, hsize⟩ | ⟨x, rfl, ha⟩ | ⟨xs, rfl, ha⟩ <;>
      rcases plain_or_blob_or_list b with ⟨hb, hbytes', hsize'⟩ | ⟨y, rfl, hb⟩ | ⟨ys, rfl, hb⟩
    case inl.inl =>
      rw [sortCompare_of_rank_lt_two h ha hrank, hbytes, hbytes', hsize, hsize']
      simp
    case inr.inl.inr.inl =>
      show compare x y = (compare x y).then .eq
      rw [Ordering.then_eq]
    case inr.inr.inr.inr => rfl
    -- The other pairs are of different kinds.
    all_goals omega
  · rw [compare_then_of_ne hrank]
    exact compare_then_of_ne hrank _

/-! ### Integers that share a number -/

/-- The view of two integers is their order, unless they share a number. -/
theorem viewCompare_integer {i j : Int64} (h : i < j) :
    (integer i).viewCompare (integer j) = .lt ∨ (integer i).number? = (integer j).number? := by
  have hplace := Binary64.place_ofInt_mono (Int.le_of_lt (Int64.lt_iff_toInt_lt.1 h))
  rcases Int.lt_or_eq_of_le hplace with hlt | heq
  · left
    have hcompare : compare (integer i).place? (integer j).place? = .lt :=
      Int.compare_eq_lt.2 hlt
    rw [viewCompare_eq, hcompare]
    rfl
  · right
    exact congrArg some (Binary64.place_inj.1 heq)

theorem bytes_and_size_of_number? {v : Value} {x : Binary64} (h : v.number? = some x) :
    v.bytes = [] ∧ v.size = 0 := by
  rcases plain_or_blob_or_list v with ⟨-, hplain⟩ | ⟨_, rfl, -⟩ | ⟨_, rfl, -⟩
  · exact hplain
  · cases h
  · cases h

/-- Values of one number are told apart by their texts. -/
theorem viewCompare_of_number?_eq {a b : Value} {x : Binary64} (ha : a.number? = some x)
    (hb : b.number? = some x) : a.viewCompare b = compare a.text? b.text? := by
  obtain ⟨hbytes, hsize⟩ := bytes_and_size_of_number? ha
  obtain ⟨hbytes', hsize'⟩ := bytes_and_size_of_number? hb
  rw [viewCompare_eq, rank_of_number? ha, rank_of_number? hb, place?, place?, ha, hb, hbytes,
    hbytes', hsize, hsize']
  simp

/-- What stands between values of one number has that number. -/
theorem number?_between {a b c : Value} {x : Binary64} (ha : a.number? = some x)
    (hc : c.number? = some x) (hab : (a.viewCompare b).isLE = true)
    (hbc : (b.viewCompare c).isLE = true) : b.number? = some x := by
  rw [viewCompare_eq] at hab hbc
  have hrank : b.rank = 0 := by
    have hle : b.rank ≤ c.rank := Nat.isLE_compare.1 (Ordering.isLE_left_of_isLE_then hbc)
    have := rank_of_number? hc
    omega
  obtain ⟨y, hy⟩ := Option.isSome_iff_exists.1 ((rank_eq_zero_iff b).1 hrank)
  rw [rank_of_number? ha, hrank, Nat.compare_eq_eq.2 rfl, Ordering.eq_then, place?, place?, ha,
    hy] at hab
  rw [rank_of_number? hc, hrank, Nat.compare_eq_eq.2 rfl, Ordering.eq_then, place?, place?, hc,
    hy] at hbc
  have hxy : x.place ≤ y.place := Int.isLE_compare.1 (Ordering.isLE_left_of_isLE_then hab)
  have hyx : y.place ≤ x.place := Int.isLE_compare.1 (Ordering.isLE_left_of_isLE_then hbc)
  rw [hy, Binary64.place_inj.1 (Int.le_antisymm hyx hxy)]

/-- A value that is no integer counts as the number of two integers, and its text stands between
theirs the wrong way round. -/
structure Straddles (t : Value) (i j : Int64) : Prop where
  other : ∀ n, t ≠ integer n
  lt : i < j
  lower : t.number? = (integer i).number?
  upper : t.number? = (integer j).number?
  above : compare (integer j).text? t.text? ≠ .gt
  below : compare t.text? (integer i).text? ≠ .gt

theorem Straddles.of_viewCompare {t : Value} {i j : Int64} (other : ∀ n, t ≠ integer n)
    (lt : i < j) (above : ((integer j).viewCompare t).isLE = true)
    (below : (t.viewCompare (integer i)).isLE = true) : t.Straddles i j := by
  have hnumber : (integer i).number? = (integer j).number? := by
    rcases viewCompare_integer lt with hlt | heq
    · have := Std.TransCmp.isLE_trans above below
      rw [viewCompare_swap (integer i) (integer j), hlt] at this
      cases this
    · exact heq
  have ht : t.number? = (integer j).number? := number?_between rfl hnumber above below
  have hlower : t.number? = (integer i).number? := ht.trans hnumber.symm
  rw [viewCompare_of_number?_eq rfl ht] at above
  rw [viewCompare_of_number?_eq hlower rfl] at below
  exact ⟨other, lt, hlower, ht, Ordering.isLE_iff_ne_gt.1 above, Ordering.isLE_iff_ne_gt.1 below⟩

/-! ### The laws of the order -/

theorem chained_of_transCmp {α : Type} (cmp : α → α → Ordering) [Std.TransCmp cmp] {a b c : α}
    (hab : cmp a b ≠ .gt) (hbc : cmp b c ≠ .gt) :
    cmp a c ≠ .gt ∧ (cmp a b = .lt ∨ cmp b c = .lt → cmp a c = .lt) := by
  have hle : (cmp a b).isLE = true := Ordering.isLE_iff_ne_gt.2 hab
  have hle' : (cmp b c).isLE = true := Ordering.isLE_iff_ne_gt.2 hbc
  refine ⟨Ordering.isLE_iff_ne_gt.1 (Std.TransCmp.isLE_trans hle hle'), ?_⟩
  rintro (hlt | hlt)
  · exact Std.TransCmp.lt_of_lt_of_isLE hlt hle'
  · exact Std.TransCmp.lt_of_isLE_of_lt hle hlt

theorem integer_or_other (v : Value) : (∃ i, v = integer i) ∨ ∀ i, v ≠ integer i := by
  cases v <;> simp

theorem sortCompare_other_left {a : Value} (h : ∀ i, a ≠ integer i) (b : Value) :
    a.sortCompare b = a.viewCompare b :=
  sortCompare_eq_viewCompare fun i _ heq => h i heq.1

theorem sortCompare_other_right (a : Value) {b : Value} (h : ∀ i, b ≠ integer i) :
    a.sortCompare b = a.viewCompare b :=
  sortCompare_eq_viewCompare fun _ j heq => h j heq.2

/-- **The comparison looks the same from both sides.** -/
theorem sortCompare_swap (a b : Value) : b.sortCompare a = (a.sortCompare b).swap := by
  rcases integer_or_other a with ⟨i, rfl⟩ | ha
  · rcases integer_or_other b with ⟨j, rfl⟩ | hb
    · exact Std.OrientedOrd.eq_swap
    · rw [sortCompare_other_left hb, sortCompare_other_right _ hb]
      exact Std.OrientedCmp.eq_swap
  · rw [sortCompare_other_left ha, sortCompare_other_right _ ha]
    exact Std.OrientedCmp.eq_swap

theorem integer_trichotomy (i j : Int64) : i < j ∨ i = j ∨ j < i := by
  rw [Int64.lt_iff_toInt_lt, Int64.lt_iff_toInt_lt, ← Int64.toInt_inj]
  omega

theorem ne_gt_of_ne_lt {a b : Value} (h : a.viewCompare b ≠ .lt) : b.viewCompare a ≠ .gt := by
  intro hgt
  rw [viewCompare_swap b a, hgt] at h
  exact h rfl

section Chains

/-! In a set of values none of which straddles two integers, `free`, no other value stands
between integers in the wrong order.  The remaining lemmas of this section tell the chains
of two integers and another value apart by the place of the other value. -/

variable {s : Set Value}
  (free : ∀ t ∈ s, ∀ i j, integer i ∈ s → integer j ∈ s → ¬t.Straddles i j)
  {i j : Int64} {t : Value} (hi : integer i ∈ s) (hj : integer j ∈ s) (ht : t ∈ s)
  (other : ∀ n, t ≠ integer n)

include free hi hj ht other

theorem not_between (lt : i < j) (above : (integer j).viewCompare t ≠ .gt) :
    t.viewCompare (integer i) = .gt := by
  refine Decidable.byContradiction fun below => ?_
  exact free t ht i j hi hj (.of_viewCompare other lt (Ordering.isLE_iff_ne_gt.2 above)
    (Ordering.isLE_iff_ne_gt.2 below))

theorem chained_other_last (hij : compare i j ≠ .gt) (hjt : (integer j).viewCompare t ≠ .gt) :
    (integer i).viewCompare t ≠ .gt ∧
      (compare i j = .lt ∨ (integer j).viewCompare t = .lt → (integer i).viewCompare t = .lt) := by
  rcases integer_trichotomy i j with lt | rfl | gt
  · have hlt : (integer i).viewCompare t = .lt := by
      refine Decidable.byContradiction fun hne => ?_
      exact ne_gt_of_ne_lt hne (not_between free hi hj ht other lt hjt)
    rw [hlt]
    exact ⟨nofun, fun _ => rfl⟩
  · refine ⟨hjt, ?_⟩
    rintro (hlt | hlt)
    · rw [Std.ReflOrd.compare_self] at hlt
      cases hlt
    · exact hlt
  · exact absurd (Std.compare_eq_gt.2 gt) hij

theorem chained_other_first (hti : t.viewCompare (integer i) ≠ .gt) (hij : compare i j ≠ .gt) :
    t.viewCompare (integer j) ≠ .gt ∧
      (t.viewCompare (integer i) = .lt ∨ compare i j = .lt → t.viewCompare (integer j) = .lt) := by
  rcases integer_trichotomy i j with lt | rfl | gt
  · have hlt : t.viewCompare (integer j) = .lt := by
      refine Decidable.byContradiction fun hne => ?_
      exact hti (not_between free hi hj ht other lt (ne_gt_of_ne_lt hne))
    rw [hlt]
    exact ⟨nofun, fun _ => rfl⟩
  · refine ⟨hti, ?_⟩
    rintro (hlt | hlt)
    · exact hlt
    · rw [Std.ReflOrd.compare_self] at hlt
      cases hlt
  · exact absurd (Std.compare_eq_gt.2 gt) hij

theorem chained_other_between (hit : (integer i).viewCompare t ≠ .gt)
    (htj : t.viewCompare (integer j) ≠ .gt) :
    compare i j ≠ .gt ∧
      ((integer i).viewCompare t = .lt ∨ t.viewCompare (integer j) = .lt → compare i j = .lt) := by
  rcases integer_trichotomy i j with lt | rfl | gt
  · rw [Std.compare_eq_lt.2 lt]
    exact ⟨nofun, fun _ => rfl⟩
  · rw [Std.ReflOrd.compare_self]
    refine ⟨nofun, fun hlt => ?_⟩
    have := (chained_of_transCmp viewCompare hit htj).2 hlt
    rw [viewCompare_self] at this
    cases this
  · exact absurd (not_between free hj hi ht other gt hit) htj

end Chains

/-- **Where nothing straddles two integers, going up twice is going up.** -/
theorem sortCompare_chained {s : Set Value}
    (free : ∀ t ∈ s, ∀ i j, integer i ∈ s → integer j ∈ s → ¬t.Straddles i j)
    {a b c : Value} (ha : a ∈ s) (hb : b ∈ s) (hc : c ∈ s)
    (hab : a.sortCompare b ≠ .gt) (hbc : b.sortCompare c ≠ .gt) :
    a.sortCompare c ≠ .gt ∧
      (a.sortCompare b = .lt ∨ b.sortCompare c = .lt → a.sortCompare c = .lt) := by
  rcases integer_or_other a with ⟨i, rfl⟩ | oa <;>
    rcases integer_or_other b with ⟨j, rfl⟩ | ob <;>
    rcases integer_or_other c with ⟨k, rfl⟩ | oc
  case inl.inl.inl => exact chained_of_transCmp compare hab hbc
  case inl.inl.inr =>
    rw [sortCompare_integer] at hab ⊢
    rw [sortCompare_other_right _ oc] at hbc
    rw [sortCompare_other_right (integer i) oc, sortCompare_other_right (integer j) oc]
    exact chained_other_last free ha hb hc oc hab hbc
  case inl.inr.inl =>
    rw [sortCompare_other_right _ ob] at hab ⊢
    rw [sortCompare_other_left ob] at hbc ⊢
    rw [sortCompare_integer]
    exact chained_other_between free ha hc hb ob hab hbc
  case inr.inl.inl =>
    rw [sortCompare_other_left oa] at hab
    rw [sortCompare_integer] at hbc ⊢
    rw [sortCompare_other_left oa (integer j), sortCompare_other_left oa (integer k)]
    exact chained_other_first free hb hc ha oa hab hbc
  -- No two integers meet.
  case inl.inr.inr =>
    simp only [sortCompare_other_left ob, sortCompare_other_right _ ob,
      sortCompare_other_right _ oc] at *
    exact chained_of_transCmp viewCompare hab hbc
  case inr.inl.inr =>
    simp only [sortCompare_other_left oa, sortCompare_other_right _ oc] at *
    exact chained_of_transCmp viewCompare hab hbc
  case inr.inr.inl | inr.inr.inr =>
    simp only [sortCompare_other_left oa, sortCompare_other_left ob] at *
    exact chained_of_transCmp viewCompare hab hbc

theorem ordersTotally_of_free {s : Set Value}
    (free : ∀ t ∈ s, ∀ i j, integer i ∈ s → integer j ∈ s → ¬t.Straddles i j) :
    OrdersTotally sortCompare s where
  swapped a _ b _ := sortCompare_swap a b
  chained _ ha _ hb _ hc := sortCompare_chained free ha hb hc

/-- **The order of values is total exactly where nothing straddles two integers.** -/
theorem sortCompare_ordersTotally_iff (s : Set Value) :
    OrdersTotally sortCompare s ↔
      ∀ t ∈ s, ∀ i j, integer i ∈ s → integer j ∈ s → ¬t.Straddles i j := by
  refine ⟨?_, ordersTotally_of_free⟩
  intro h t ht i j hi hj hstraddles
  have above : (integer j).sortCompare t ≠ .gt := by
    rw [sortCompare_other_right _ hstraddles.other,
      viewCompare_of_number?_eq rfl hstraddles.upper]
    exact hstraddles.above
  have below : t.sortCompare (integer i) ≠ .gt := by
    rw [sortCompare_other_left hstraddles.other, viewCompare_of_number?_eq hstraddles.lower rfl]
    exact hstraddles.below
  exact (h.chained _ hj t ht _ hi above below).1 (Std.compare_eq_gt.2 hstraddles.lt)

/-- A circle: the float `-2 ^ 53` is the integer `-2 ^ 53`, its text is below that of the integer
`-2 ^ 53 - 1`, which rounds to the same number, and of the integers the latter is less. -/
theorem not_ordersTotally_circle :
    ¬OrdersTotally sortCompare {integer (-9007199254740992),
      float (.ofInt (-9007199254740992)), integer (-9007199254740993)} := by
  intro h
  have hchained := h.chained (integer (-9007199254740992)) (.inl rfl)
    (float (.ofInt (-9007199254740992))) (.inr (.inl rfl))
    (integer (-9007199254740993)) (.inr (.inr rfl)) (by decide +kernel) (by decide +kernel)
  exact hchained.1 (by decide +kernel)

end Value

end LayeredStore
