import LayeredStore.Condition
import LayeredStore.Proofs.ValueOrder

/-! # Filters and orders agree

Conditions compare values by `Value.compare?`, which may give no answer, and orderings by
`Value.sortCompare`, which always gives one.  The two go by different numeric orders, by different
rules for kinds and by different rules for what has no text, but they do not contradict each
other: between values of one kind (`Value.Kindred`) whatever a condition finds less, an ordering
puts first (`Value.sortCompare_of_compare?`).

Both rules come down to one lookup: but for two integers and for two blobs, a condition compares
what the values show, `Value.shownCompare?`.
-/
namespace LayeredStore

namespace Binary64

theorem compare?_swap (x y : Binary64) : y.compare? x = (x.compare? y).map Ordering.swap := by
  unfold compare?
  rw [Bool.or_comm]
  split
  · rfl
  · exact congrArg some Std.OrientedOrd.eq_swap

/-- The places of two data are in their numeric order, where that is strict. -/
theorem place_lt_of_signed_lt {x y : Binary64} (h : x.signed < y.signed) : x.place < y.place := by
  cases hx : x.negative <;> cases hy : y.negative <;>
    simp only [signed, place, hx, hy, if_true, if_false, Bool.false_eq_true] at h ⊢ <;> omega

/-- **What the numeric order tells apart, the total order places alike.** -/
theorem totalCompare_of_compare? {x y : Binary64} {o : Ordering} (h : x.compare? y = some o)
    (ho : o ≠ .eq) : x.totalCompare y = o := by
  unfold compare? at h
  split at h
  · cases h
  · cases h
    unfold totalCompare
    rcases Int.lt_trichotomy x.signed y.signed with hlt | heq | hgt
    · rw [Int.compare_eq_lt.2 hlt, Int.compare_eq_lt.2 (place_lt_of_signed_lt hlt)]
    · exact absurd (Int.compare_eq_eq.2 heq) ho
    · rw [Int.compare_eq_gt.2 hgt, Int.compare_eq_gt.2 (place_lt_of_signed_lt hgt)]

end Binary64

namespace Value

/-! ### Comparing what values show -/

/-- The comparison of two values as numbers where both are numbers, else as texts where both
have one. -/
def shownCompare? (a b : Value) : Option Ordering :=
  match a.number?, b.number? with
  | some x, some y => x.compare? y
  | _, _ =>
    match a.text?, b.text? with
    | some s, some t => some (compare s t)
    | _, _ => none

/-- What conditions compare exactly: two integers or two blobs.  All else meets as what it shows. -/
inductive Meeting : Value → Value → Prop
  | integers (i j : Int64) : Meeting (integer i) (integer j)
  | blobs (x y : Bytes) : Meeting (blob x) (blob y)
  | others {a b : Value} : (∀ i j, ¬(a = integer i ∧ b = integer j)) →
      (∀ x y, ¬(a = blob x ∧ b = blob y)) → Meeting a b

theorem meeting (a b : Value) : Meeting a b := by
  cases a with
  | integer i =>
    cases b with
    | integer j => exact .integers i j
    | _ => exact .others (by simp) (by simp)
  | blob x =>
    cases b with
    | blob y => exact .blobs x y
    | _ => exact .others (by simp) (by simp)
  | _ => exact .others (by simp) (by simp)

theorem compare?_integer (i j : Int64) :
    (integer i).compare? (integer j) = some (compare i j) := rfl

/-- Lists show neither a number nor a text, so they need no rule of their own. -/
theorem compare?_eq_shownCompare? {a b : Value} (hi : ∀ i j, ¬(a = integer i ∧ b = integer j))
    (hb : ∀ x y, ¬(a = blob x ∧ b = blob y)) : a.compare? b = a.shownCompare? b := by
  unfold compare?
  split
  · exact absurd ⟨rfl, rfl⟩ (hi _ _)
  · exact absurd ⟨rfl, rfl⟩ (hb _ _)
  · simp [shownCompare?, number?, text?]
  · simp [shownCompare?, number?, text?]
  · rfl

theorem shownCompare?_swap (a b : Value) :
    b.shownCompare? a = (a.shownCompare? b).map Ordering.swap := by
  unfold shownCompare?
  cases a.number? <;> cases b.number?
  case some.some x y => exact Binary64.compare?_swap x y
  -- Without two numbers the texts decide.
  all_goals
    cases a.text? <;> cases b.text?
    case some.some s t => exact congrArg some Std.OrientedOrd.eq_swap
    all_goals rfl

/-- **The comparison of conditions looks the same from both sides.** -/
theorem compare?_swap (a b : Value) : b.compare? a = (a.compare? b).map Ordering.swap := by
  cases meeting a b with
  | integers i j => exact congrArg some Std.OrientedOrd.eq_swap
  | blobs x y => exact congrArg some Std.OrientedOrd.eq_swap
  | others hi hb =>
    rw [compare?_eq_shownCompare? hi hb,
      compare?_eq_shownCompare? (fun i j h => hi j i h.symm) fun x y h => hb y x h.symm,
      shownCompare?_swap]

/-! ### Values of one kind -/

/-- Two numbers, two texts that spell no number, or two blobs. -/
inductive Kindred (a b : Value) : Prop
  /-- Both count as numbers. -/
  | numbers {x y : Binary64} (ha : a.number? = some x) (hb : b.number? = some y)
  /-- Both have a text, and neither counts as a number. -/
  | texts {s t : String} (ha : a.number? = none) (hb : b.number? = none) (hs : a.text? = some s)
      (ht : b.text? = some t)
  /-- Both are byte strings. -/
  | blobs {x y : Bytes} (ha : a = blob x) (hb : b = blob y)

theorem rank_of_text? {v : Value} {s : String} (hn : v.number? = none) (hs : v.text? = some s) :
    v.rank = 1 := by
  cases v with
  | blob x => cases hs
  | list items => cases hs
  | _ => simp [rank, hn]

/-- Numbers are placed by the total order of data, and by their texts where that is undecided. -/
theorem sortCompare_of_numbers {a b : Value} {x y : Binary64}
    (hi : ∀ i j, ¬(a = integer i ∧ b = integer j)) (ha : a.number? = some x)
    (hb : b.number? = some y) :
    a.sortCompare b = (x.totalCompare y).then (compare a.text? b.text?) := by
  have hrank : a.rank = b.rank := (rank_of_number? ha).trans (rank_of_number? hb).symm
  have hlow : a.rank < 2 := by
    rw [rank_of_number? ha]
    decide
  rw [sortCompare_of_rank_lt_two hi hlow hrank, place?, place?, ha, hb]
  rfl

/-- Texts that spell no number are placed as texts. -/
theorem sortCompare_of_texts {a b : Value} {s t : String} (ha : a.number? = none)
    (hb : b.number? = none) (hs : a.text? = some s) (ht : b.text? = some t) :
    a.sortCompare b = compare s t := by
  have hi : ∀ i j, ¬(a = integer i ∧ b = integer j) := by
    rintro i j ⟨rfl, -⟩
    cases ha
  have hrank : a.rank = b.rank := (rank_of_text? ha hs).trans (rank_of_text? hb ht).symm
  have hlow : a.rank < 2 := by
    rw [rank_of_text? ha hs]
    decide
  rw [sortCompare_of_rank_lt_two hi hlow hrank, place?, place?, ha, hb, hs, ht]
  rfl

/-- **What a condition tells apart among values of one kind, an ordering places alike.** -/
theorem sortCompare_of_compare? {a b : Value} {o : Ordering} (h : Kindred a b)
    (hc : a.compare? b = some o) (ho : o ≠ .eq) : a.sortCompare b = o := by
  cases meeting a b with
  | integers i j => exact Option.some.inj hc
  | blobs x y => exact Option.some.inj hc
  | others hi hblob =>
    rw [compare?_eq_shownCompare? hi hblob] at hc
    cases h with
    | numbers ha hb =>
      rw [shownCompare?, ha, hb] at hc
      rw [sortCompare_of_numbers hi ha hb, Binary64.totalCompare_of_compare? hc ho]
      cases o with
      | eq => exact absurd rfl ho
      | lt | gt => rfl
    | texts ha hb hs ht =>
      rw [shownCompare?, ha, hb, hs, ht] at hc
      rw [sortCompare_of_texts ha hb hs ht]
      exact Option.some.inj hc
    | blobs ha hb => exact absurd ⟨ha, hb⟩ (hblob _ _)

/-! ### Operators -/

/-- Filters and orders agree on two values. -/
structure Coherent (a b : Value) : Prop where
  /-- The comparison looks the same from both sides, and there is none from both or neither. -/
  mirrored : b.compare? a = (a.compare? b).map Ordering.swap
  /-- At most one of equal, less and greater holds. -/
  exclusive : [Operator.eq, .lt, .gt].Pairwise fun op other =>
    ¬(op.holds a b = true ∧ other.holds a b = true)
  /-- Being unequal is not being equal. -/
  unequal : Operator.ne.holds a b = !Operator.eq.holds a b
  /-- At most is less or equal. -/
  atMost : Operator.le.holds a b = (Operator.lt.holds a b || Operator.eq.holds a b)
  /-- At least is greater or equal. -/
  atLeast : Operator.ge.holds a b = (Operator.gt.holds a b || Operator.eq.holds a b)
  /-- Among values of one kind, what a condition finds less an ordering puts first. -/
  sorted : Kindred a b → a.compare? b = some .lt → a.sortCompare b = .lt

/-- Equal, less and greater ask for different outcomes of one comparison. -/
theorem pairwise_not_holds (a b : Value) : [Operator.eq, .lt, .gt].Pairwise fun op other =>
    ¬(op.holds a b = true ∧ other.holds a b = true) := by
  have hne : ∀ {o p : Ordering}, o ≠ p →
      ¬((a.compare? b == some o) = true ∧ (a.compare? b == some p) = true) := by
    rintro o p hop ⟨ho, hp⟩
    rw [beq_iff_eq] at ho hp
    exact hop (Option.some.inj (ho.symm.trans hp))
  refine .cons ?_ (.cons ?_ (List.pairwise_singleton _ _))
  · intro other hmem
    rcases List.mem_cons.1 hmem with rfl | hmem
    · exact hne nofun
    · obtain rfl := List.mem_singleton.1 hmem
      exact hne nofun
  · intro other hmem
    obtain rfl := List.mem_singleton.1 hmem
    exact hne nofun

/-- **Filters and orders agree**, on any two values. -/
theorem filters_coherent (a b : Value) : Coherent a b where
  mirrored := compare?_swap a b
  exclusive := pairwise_not_holds a b
  unequal := rfl
  atMost := rfl
  atLeast := rfl
  sorted hkind hlt := sortCompare_of_compare? hkind hlt nofun

-- Values that are not of one kind are sorted by rank, whatever a condition finds.
example : (text "!").compare? (integer 5) = some .lt ∧
    (text "!").sortCompare (integer 5) = .gt := by decide +kernel

end Value

end LayeredStore
