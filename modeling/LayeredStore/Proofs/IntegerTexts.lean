import LayeredStore.Record.Names
import LayeredStore.Proofs.Numerals
import LayeredStore.Proofs.SortedFilters

/-! # Integers and their decimal texts

The decimal text of an integer counts as a number, and as the number that the integer counts as
(`Value.number?_decimal`): what is written as a numeral is read from its text
(`Numeral.WellWritten.ofText?_text`), and reading rounds as counting an integer as a number does
(`Numeral.toBinary64_ofInt`).

So an integer and a decimal text are compared by the data nearest to them, though two integers are
compared exactly.  The data are in the order of the integers (`Binary64.compare?_ofInt`), and the
two comparisons agree just when different integers have different data, `Value.ToldApart`
(`Value.decimals_exact_iff`).
-/
namespace LayeredStore

/-! ### Numerals as texts -/

theorem Text.isBlank_of_isDigit {c : Char} (h : c.isDigit = true) : Text.isBlank c = false := by
  have hlt : c.toNat < 128 := by
    rw [Char.isDigit, Bool.and_eq_true, decide_eq_true_eq, decide_eq_true_eq] at h
    have hle : c.toNat ≤ '9'.toNat := UInt32.le_iff_toNat_le.1 h.2
    exact Nat.lt_of_le_of_lt hle (by decide)
  exact Text.of_ascii (p := fun c => c.isDigit = true → Text.isBlank c = false) (by decide) hlt h

namespace Numeral

/-- A well-written numeral starts with a digit. -/
theorem WellWritten.exists_whole {n : Numeral} (hn : n.WellWritten) :
    ∃ d rest, n.whole = d :: rest ∧ d.isDigit = true := by
  cases hwhole : n.whole with
  | nil =>
    have hstrict := hn.strict
    simp [Json.isStrict, hwhole] at hstrict
  | cons d rest => exact ⟨d, rest, rfl, hn.whole d (hwhole ▸ List.mem_cons_self ..)⟩

theorem scanSign_of_isDigit {d : Char} (hd : d.isDigit = true) (rest : List Char) :
    scanSign (d :: rest) = (false, d :: rest) := by
  unfold scanSign
  split
  · next heq =>
    cases heq
    cases hd
  · next heq =>
    cases heq
    cases hd
  · rfl

/-- What starts with a digit is no word. -/
theorem ofList_ne_word {d : Char} (hd : d.isDigit = true) (rest : List Char) (word : String)
    (hword : word.toList.head?.any Char.isDigit = false) :
    String.ofList ((d :: rest).map Char.toLower) ≠ word := by
  rintro rfl
  have hfirst : d.toLower.isDigit = false := by rwa [String.toList_ofList] at hword
  rw [Text.isDigit_toLower, hd] at hfirst
  cases hfirst

/-- **A well-written numeral is read from its text**, as what the text stands for. -/
theorem WellWritten.ofText?_text {n : Numeral} (hn : n.WellWritten) :
    Binary64.ofText? n.text = some n.toBinary64 := by
  obtain ⟨d, rest, hwhole, hd⟩ := hn.exists_whole
  obtain ⟨after, hmagnitude⟩ : ∃ after, n.magnitudeText = d :: after := by
    rw [magnitudeText, hwhole]
    exact ⟨_, rfl⟩
  have hsign : scanSign n.text = (n.negative, n.magnitudeText) := by
    rw [text_eq, hmagnitude]
    cases n.negative
    · exact scanSign_of_isDigit hd after
    · rfl
  have hscan := scan?_text hn delimited_nil
  rw [List.append_nil] at hscan
  have hinf := ofList_ne_word hd after "inf" (by decide)
  have hinfinity := ofList_ne_word hd after "infinity" (by decide)
  have hnan := ofList_ne_word hd after "nan" (by decide)
  have hdigits : (n.whole ++ n.fraction).isEmpty = false := by
    rw [hwhole]
    rfl
  rw [← hmagnitude] at hinf hinfinity hnan
  simp only [Binary64.ofText?, hsign, hinf, hinfinity, hnan, or_self, if_false, hscan, hdigits]
  rfl

theorem toList_toString (n : Int) : (toString n).toList = (ofInt n).text := by
  rw [text_eq, magnitudeText]
  cases n with
  | ofNat m =>
    show (Nat.repr m).toList = _
    rw [Nat.repr, String.toList_ofList]
    simp [ofInt, fractionText, exponentText]
  | negSucc m =>
    show ("-" ++ Nat.repr (m + 1)).toList = _
    rw [String.toList_append, Nat.repr, String.toList_ofList]
    simp [ofInt, fractionText, exponentText]

/-- The characters of an integer are digits, but for its sign. -/
theorem isBlank_ofInt {n : Int} {c : Char} (h : c ∈ (ofInt n).text) : Text.isBlank c = false := by
  have htext : (ofInt n).text = (if n < 0 then ['-'] else []) ++ Nat.toDigits 10 n.natAbs := by
    simp [text, ofInt]
  rw [htext, List.mem_append] at h
  rcases h with hsign | hdigit
  · split at hsign
    · rw [List.mem_singleton.1 hsign]
      decide
    · cases hsign
  · exact Text.isBlank_of_isDigit (isDigit_of_mem_toDigits hdigit)

theorem trimmed_ofInt (n : Int) : Text.trimmed (ofInt n).text = (ofInt n).text :=
  Text.trimmed_eq_self (fun _ hc => isBlank_ofInt (List.mem_of_mem_head? hc))
    fun _ hc => isBlank_ofInt (List.mem_of_mem_getLast? hc)

end Numeral

/-- A whole number that is far from the greatest datum is rounded as it is. -/
theorem Decimal.nearestMagnitude_whole {n : Nat} (h : n < 10 ^ 100) :
    nearestMagnitude ⟨n, 0⟩ = Binary64.nearestMagnitude n 1 := by
  by_cases hzero : n = 0
  · subst hzero
    decide +kernel
  · have hlength : decimalLength n ≤ 100 :=
      (Nat.length_toDigits_le_iff (by decide) (by decide)).2 h
    have htop : top ⟨n, 0⟩ = decimalLength n := Int.add_zero _
    have hlow : ¬(n = 0 ∨ top ⟨n, 0⟩ < -330) := by omega
    have hhigh : ¬310 < top ⟨n, 0⟩ := by omega
    rw [nearestMagnitude, if_neg hlow, if_neg hhigh]
    exact congrArg (Binary64.nearestMagnitude · 1) (Nat.mul_one n)

/-- The numeral of an integer is rounded to the datum of the integer. -/
theorem Numeral.toBinary64_ofInt {n : Int} (h : n.natAbs < 10 ^ 100) :
    (ofInt n).toBinary64 = Binary64.ofInt n := by
  have hdecimal : (ofInt n).decimal = ⟨n.natAbs, 0⟩ := by
    simp [decimal, ofInt, fraction]
  have hnegative : (ofInt n).negative = decide (n < 0) := rfl
  rw [toBinary64, Binary64.ofInt, hdecimal, hnegative, Decimal.nearest, Binary64.nearest]
  simp only [Decimal.nearestMagnitude_whole h]

/-! ### Data of integers -/

namespace Binary64

theorem isNaN_ofInt (n : Int) : (ofInt n).isNaN = false := by
  have hle : nearestMagnitude n.natAbs 1 ≤ infinityMagnitude := Nat.min_le_right ..
  exact decide_eq_false (Nat.not_lt.2 hle)

/-- No datum of an integer is a negative zero. -/
theorem magnitude_ofInt_ne_zero {n : Int} (h : (ofInt n).negative = true) :
    (ofInt n).magnitude ≠ 0 := by
  have hneg : n < 0 := of_decide_eq_true h
  have hone : 0 < nearestMagnitude 1 1 := by decide +kernel
  have hmono := nearestMagnitude_mono (show 1 ≤ n.natAbs by omega) 1
  show nearestMagnitude n.natAbs 1 ≠ 0
  omega

/-- Where there is no negative zero, the total order is the numeric one. -/
theorem signed_lt_of_place_lt {x y : Binary64} (hx : x.negative = true → x.magnitude ≠ 0)
    (h : x.place < y.place) : x.signed < y.signed := by
  cases hsign : x.negative <;> cases hsign' : y.negative <;>
    simp only [signed, place, hsign, hsign', if_true, if_false, Bool.false_eq_true, ne_eq,
      forall_const] at h hx ⊢ <;> omega

/-- **Integers compare through their data** as they do themselves, unless they share one. -/
theorem compare?_ofInt (m n : Int) :
    (ofInt m).compare? (ofInt n) = some (if ofInt m = ofInt n then .eq else compare m n) := by
  have hlt : ∀ {m n : Int}, m < n → ofInt m ≠ ofInt n → (ofInt m).signed < (ofInt n).signed := by
    intro m n hmn hne
    have hplace := place_ofInt_mono (Int.le_of_lt hmn)
    have hplaces := mt place_inj.1 hne
    exact signed_lt_of_place_lt magnitude_ofInt_ne_zero (by omega)
  rw [compare?, isNaN_ofInt, isNaN_ofInt, Bool.or_self, if_neg Bool.false_ne_true]
  by_cases hshared : ofInt m = ofInt n
  · rw [if_pos hshared, hshared, Int.compare_eq_eq.2 rfl]
  · rw [if_neg hshared]
    rcases Int.lt_trichotomy m n with hmn | rfl | hmn
    · rw [Int.compare_eq_lt.2 hmn, Int.compare_eq_lt.2 (hlt hmn hshared)]
    · exact absurd rfl hshared
    · rw [Int.compare_eq_gt.2 hmn, Int.compare_eq_gt.2 (hlt hmn (Ne.symm hshared))]

end Binary64

namespace Value

/-! ### Comparing integers with texts -/

/-- The decimal text of an integer. -/
def decimal (i : Int64) : Value := text (toString i.toInt)

/-- Two integers are told apart by the data nearest to them, if they are two. -/
def ToldApart (i j : Int64) : Prop :=
  Binary64.ofInt i.toInt = Binary64.ofInt j.toInt → i = j

theorem text?_decimal (i : Int64) : (decimal i).text? = (integer i).text? := rfl

/-- **The decimal text of an integer counts as the number that the integer counts as.** -/
theorem number?_decimal (i : Int64) : (decimal i).number? = (integer i).number? := by
  have hsmall : i.toInt.natAbs < 10 ^ 100 := by
    have hlow := Int64.le_toInt i
    have hhigh := Int64.toInt_lt i
    omega
  have hread := (Numeral.wellWritten_ofInt i.toInt).ofText?_text
  rw [← Numeral.trimmed_ofInt, Numeral.toBinary64_ofInt hsmall, ← Numeral.toList_toString] at hread
  have hnumber : (decimal i).number? =
      (Binary64.ofText? (Text.trimmed (toString i.toInt).toList)).filter fun x => !x.isNaN := rfl
  rw [hnumber, hread, Option.filter_some, Binary64.isNaN_ofInt]
  rfl

theorem compare_toInt (i j : Int64) : compare i.toInt j.toInt = compare i j := by
  rcases integer_trichotomy i j with hlt | rfl | hgt
  · rw [Std.compare_eq_lt.2 hlt, Int.compare_eq_lt.2 (Int64.lt_iff_toInt_lt.1 hlt)]
  · rw [Std.ReflOrd.compare_self, Std.ReflOrd.compare_self]
  · rw [Std.compare_eq_gt.2 hgt, Int.compare_eq_gt.2 (Int64.lt_iff_toInt_lt.1 hgt)]

/-- **An integer and a decimal text compare as the integers do**, unless the two share a datum. -/
theorem compare?_decimal (i j : Int64) :
    (integer i).compare? (decimal j) =
      some (if Binary64.ofInt i.toInt = Binary64.ofInt j.toInt then .eq else compare i j) := by
  have hcompare : (integer i).compare? (decimal j) = (integer i).shownCompare? (decimal j) :=
    compare?_eq_shownCompare? (by simp [decimal]) (by simp [decimal])
  rw [hcompare, shownCompare?, number?_decimal]
  show (Binary64.ofInt i.toInt).compare? (Binary64.ofInt j.toInt) = _
  rw [Binary64.compare?_ofInt, compare_toInt]

theorem compare_eq_iff_toldApart (i j : Int64) :
    (if Binary64.ofInt i.toInt = Binary64.ofInt j.toInt then .eq else compare i j) = compare i j ↔
      ToldApart i j := by
  unfold ToldApart
  by_cases hshared : Binary64.ofInt i.toInt = Binary64.ofInt j.toInt
  · rw [if_pos hshared, eq_comm, Std.compare_eq_iff_eq]
    exact ⟨fun heq _ => heq, fun hsame => hsame hshared⟩
  · rw [if_neg hshared]
    exact iff_of_true rfl fun h => absurd h hshared

/-- **Integers that are told apart compare as texts as they do themselves.** -/
theorem compare?_decimal_iff (i j : Int64) :
    (integer i).compare? (decimal j) = some (compare i j) ↔ ToldApart i j := by
  rw [compare?_decimal, Option.some_inj, compare_eq_iff_toldApart]

theorem decimal_compare?_iff (i j : Int64) :
    (decimal j).compare? (integer i) = some (compare j i) ↔ ToldApart i j := by
  have hswap : compare j i = (compare i j).swap := Std.OrientedOrd.eq_swap
  rw [compare?_swap, compare?_decimal, Option.map_some, Option.some_inj, hswap,
    Ordering.swap_inj, compare_eq_iff_toldApart]

/-- Every operator takes the decimal text of an integer as it takes the integer, to compare it
with an integer that is told apart from it. -/
theorem holds_decimal {i j : Int64} (h : ToldApart i j) (op : Operator) :
    op.holds (integer i) (decimal j) = op.holds (integer i) (integer j) := by
  have hcompare : (integer i).compare? (decimal j) = (integer i).compare? (integer j) :=
    (compare?_decimal_iff i j).2 h
  cases op with
  | like => rw [Operator.holds, Operator.holds, text?_decimal]
  | isIn =>
    show ((integer i).compare? (decimal j) == some .eq) =
      ((integer i).compare? (integer j) == some .eq)
    rw [hcompare]
  | _ => simp only [Operator.holds, hcompare]

end Value

theorem Condition.test_compare_insert {record : Record} {field : String} {value : Value}
    (h : record.field? field = some value) (op : Operator) (key : String) (args : Bindings)
    (arg : Value) :
    (compare field op key).test record (args.insert key arg) = op.holds value arg := by
  rw [test, h, Dictionary.get?_insert_self]

namespace Value

/-- **An integer compares with the decimal text of an integer as with the integer itself just when
the two are told apart by the data nearest to them**, whichever of the two stands first; and just
then every comparison of a field that holds the one accepts the same records for the text as for
the integer.  Integers that are not told apart compare equal. -/
theorem decimals_exact_iff (i j : Int64) :
    ((integer i).compare? (decimal j) = some (compare i j) ↔ ToldApart i j) ∧
    ((decimal j).compare? (integer i) = some (compare j i) ↔ ToldApart i j) ∧
    ((∀ (op : Operator) (record : Record) (field key : String) (args : Bindings),
        record.field? field = some (integer i) →
        (Condition.compare field op key).test record (args.insert key (decimal j)) =
          (Condition.compare field op key).test record (args.insert key (integer j))) ↔
      ToldApart i j) ∧
    (¬ToldApart i j → (integer i).compare? (decimal j) = some .eq) := by
  have hequal : ¬ToldApart i j → (integer i).compare? (decimal j) = some .eq := by
    intro h
    rw [compare?_decimal, if_pos (Classical.not_imp.1 h).1]
  refine ⟨compare?_decimal_iff i j, decimal_compare?_iff i j, ⟨?_, ?_⟩, hequal⟩
  · intro hsame
    refine Classical.byContradiction fun h => ?_
    have hname : normalizeName "n" ≠ idField ∧ normalizeName "n" = "n" := by decide
    have hheld : Record.field? ⟨"r", Dictionary.empty.insert "n" (integer i)⟩ "n" =
        some (integer i) := by
      rw [Record.field?, if_neg hname.1, hname.2, Dictionary.get?_insert_self]
    have heq := hsame .eq _ "n" "k" .empty hheld
    rw [Condition.test_compare_insert hheld, Condition.test_compare_insert hheld,
      Operator.holds, Operator.holds, hequal h] at heq
    rw [compare?_integer] at heq
    have hcompare : compare i j = .eq := by simpa using heq.symm
    exact h fun _ => Std.LawfulEqOrd.eq_of_compare hcompare
  · intro h op record field key args hheld
    rw [Condition.test_compare_insert hheld, Condition.test_compare_insert hheld]
    exact holds_decimal h op

/-- Next to `2 ^ 53` two integers share a datum, and the one compares equal to the text of the
other. -/
theorem not_decimals_exact :
    ¬∀ i j : Int64, (integer i).compare? (decimal j) = some (compare i j) := by
  intro hexact
  have hgreater : compare (9007199254740993 : Int64) 9007199254740992 = .gt := by decide
  have hequal : (integer 9007199254740993).compare? (decimal 9007199254740992) = some .eq := by
    decide +kernel
  rw [hexact, hgreater] at hequal
  cases hequal

end Value

end LayeredStore
