import LayeredStore.Storage.DiskMap
import Mathlib.Algebra.Group.Int.Defs
import Mathlib.Algebra.Group.Nat.Defs

/-! # Entries on disk

The raw bytes of an entry give the entry back (`DiskMap.decode_encode`): the eight bytes
of the header spell the expiry whatever its sign, and what follows them is the value.  Raw
bytes that are read at all are those of the entry they are read as
(`DiskMap.encode_of_decode`), so the format loses nothing in either direction
(`DiskMap.format_bijective`).
-/
namespace LayeredStore.DiskMap

theorem toBigEndian_succ (count n : Nat) :
    toBigEndian (count + 1) n = UInt8.ofNat (n / 256 ^ count) :: toBigEndian count n := by
  simp only [toBigEndian, List.range_succ, List.reverse_append, List.reverse_cons,
    List.reverse_nil, List.nil_append, List.cons_append, List.map_cons]
  rfl

@[simp] theorem length_toBigEndian (count n : Nat) : (toBigEndian count n).length = count := by
  simp [toBigEndian]

/-- Reading on from a number that has been read. -/
theorem foldl_toBigEndian (count n read : Nat) :
    (toBigEndian count n).foldl (fun n b => 256 * n + b.toNat) read =
      read * 256 ^ count + n % 256 ^ count := by
  induction count generalizing read with
  | zero => simp [toBigEndian, Nat.mod_one]
  | succ count ih =>
    have hbyte : (UInt8.ofNat (n / 256 ^ count)).toNat = n / 256 ^ count % 256 := rfl
    have hsplit : n % 256 ^ (count + 1) = n % 256 ^ count + 256 ^ count * (n / 256 ^ count % 256) := by
      rw [Nat.pow_succ, Nat.mod_mul]
    rw [toBigEndian_succ, List.foldl_cons, ih, hbyte, hsplit, Nat.pow_succ]
    generalize 256 ^ count = p
    generalize n / p % 256 = b
    generalize n % p = rest
    rw [Nat.add_mul, Nat.mul_comm 256 read, Nat.mul_comm p b, Nat.mul_assoc, Nat.mul_comm 256 p]
    omega

theorem ofBigEndian_toBigEndian {count n : Nat} (h : n < 256 ^ count) :
    ofBigEndian (toBigEndian count n) = n := by
  rw [ofBigEndian, foldl_toBigEndian, Nat.mod_eq_of_lt h, Nat.zero_mul, Nat.zero_add]

/-- The bytes read last are divided off from the number that was read before them. -/
theorem foldl_div_pow (bytes : Bytes) (read : Nat) :
    bytes.foldl (fun n b => 256 * n + b.toNat) read / 256 ^ bytes.length = read := by
  induction bytes generalizing read with
  | nil => simp
  | cons b rest ih =>
    have hb : b.toNat < 256 := b.toNat_lt
    rw [List.foldl_cons, List.length_cons, Nat.pow_succ, ← Nat.div_div_eq_div_mul, ih]
    omega

/-- The last bytes of a number are those that were read last, whatever stood before them. -/
theorem toBigEndian_foldl (bytes : Bytes) (read : Nat) :
    toBigEndian bytes.length (bytes.foldl (fun n b => 256 * n + b.toNat) read) = bytes := by
  induction bytes generalizing read with
  | nil => rfl
  | cons b rest ih =>
    have hbyte : UInt8.ofNat (256 * read + b.toNat) = b := by
      refine UInt8.toNat.inj ?_
      have hb : b.toNat < 256 := b.toNat_lt
      show (256 * read + b.toNat) % 256 = b.toNat
      omega
    rw [List.length_cons, toBigEndian_succ, List.foldl_cons, foldl_div_pow, ih, hbyte]

theorem toBigEndian_ofBigEndian (bytes : Bytes) :
    toBigEndian bytes.length (ofBigEndian bytes) = bytes := toBigEndian_foldl bytes 0

theorem ofBigEndian_lt (bytes : Bytes) : ofBigEndian bytes < 256 ^ bytes.length :=
  Nat.lt_of_div_eq_zero (Nat.pow_pos (by decide)) (foldl_div_pow bytes 0)

theorem length_encode (e : Entry) : (encode e).length = headerLength + e.value.length := by
  rw [encode, List.length_append, length_toBigEndian]

/-- **What is written is read.** -/
@[simp] theorem decode_encode (e : Entry) : decode (encode e) = .ok e := by
  have hlong : ¬(encode e).length < headerLength := by rw [length_encode]; omega
  have htake : (encode e).take headerLength =
      toBigEndian headerLength e.expiry.toBitVec.toNat := by
    rw [encode, List.take_left' (length_toBigEndian ..)]
  have hdrop : (encode e).drop headerLength = e.value := by
    rw [encode, List.drop_left' (length_toBigEndian ..)]
  have hsmall : e.expiry.toBitVec.toNat < 256 ^ headerLength := e.expiry.toBitVec.isLt
  rw [decode, if_neg hlong, htake, hdrop, ofBigEndian_toBigEndian hsmall, BitVec.ofNat_toNat,
    BitVec.setWidth_eq, Int64.ofBitVec_toBitVec]

/-- Raw bytes with a whole header are an entry. -/
theorem decode_of_le {raw : Bytes} (h : headerLength ≤ raw.length) :
    ∃ e, decode raw = .ok e := by
  rw [decode, if_neg (by omega)]
  exact ⟨_, rfl⟩

/-- The failure that raw bytes without a whole header cause. -/
def tooShort (raw : Bytes) : StorageFailure :=
  .corrupted ("stored value is " ++ toString raw.length ++
    " bytes, shorter than the expiry header")

theorem decode_eq_error_iff {raw : Bytes} {failure : StorageFailure} :
    decode raw = .error failure ↔ raw.length < headerLength ∧ tooShort raw = failure := by
  unfold decode tooShort
  split <;> simp [*]

/-- **What is read is written.** -/
theorem encode_of_decode {raw : Bytes} {e : Entry} (h : decode raw = .ok e) : encode e = raw := by
  rw [decode] at h
  split at h
  · cases h
  · next hlong =>
    cases h
    have hlength : (raw.take headerLength).length = headerLength := by
      rw [List.length_take]; omega
    have hsmall : ofBigEndian (raw.take headerLength) < 2 ^ 64 := by
      have hlt := ofBigEndian_lt (raw.take headerLength)
      rwa [hlength] at hlt
    have hheader := toBigEndian_ofBigEndian (raw.take headerLength)
    rw [hlength] at hheader
    rw [encode, Int64.toBitVec_ofBitVec, BitVec.toNat_ofNat, Nat.mod_eq_of_lt hsmall, hheader,
      List.take_append_drop]

/-- The header spells the expiry in two's complement. -/
theorem ofBigEndian_header (expiry : Int64) :
    (ofBigEndian (toBigEndian headerLength expiry.toBitVec.toNat) : Int) =
      expiry.toInt % 2 ^ 64 := by
  have hsmall : expiry.toBitVec.toNat < 2 ^ 64 := expiry.toBitVec.isLt
  have hread : ofBigEndian (toBigEndian headerLength expiry.toBitVec.toNat) =
      expiry.toBitVec.toNat := ofBigEndian_toBigEndian hsmall
  have hmod : ((expiry.toBitVec.toNat : Int).bmod (2 ^ 64)) % (2 ^ 64 : Nat) =
      expiry.toBitVec.toNat % (2 ^ 64 : Nat) := Int.bmod_emod
  rw [hread, ← Int64.toInt_toBitVec, BitVec.toInt_eq_toNat_bmod]
  omega

/-- **Entries are raw bytes with a whole header, and nothing else.** An entry is written as its
expiry in two's complement over eight bytes, the most significant first, with its value behind
them, and is read back from there.  The raw bytes that are refused are exactly those too short
for the header; all others are what the entry read from them is written as. -/
theorem format_bijective :
    (∀ value expiry, ∃ header, encode ⟨value, expiry⟩ = header ++ value ∧ header.length = 8 ∧
      (ofBigEndian header : Int) = expiry.toInt % 2 ^ 64) ∧
    (∀ value expiry, decode (encode ⟨value, expiry⟩) = .ok ⟨value, expiry⟩) ∧
    (∀ raw, (∃ failure, decode raw = .error failure) ↔ raw.length < 8) ∧
    (∀ raw, 8 ≤ raw.length → ∃ e, decode raw = .ok e ∧ encode e = raw) := by
  refine ⟨fun value expiry => ?_, fun value expiry => decode_encode _, fun raw => ?_,
    fun raw hlong => ?_⟩
  · exact ⟨_, rfl, length_toBigEndian .., ofBigEndian_header expiry⟩
  · simp only [decode_eq_error_iff, exists_and_left, exists_eq', and_true]
    rfl
  · obtain ⟨e, he⟩ := decode_of_le hlong
    exact ⟨e, he, encode_of_decode he⟩

/-- The header of the least expiry there is, with one byte of value. -/
theorem format_bijective_leastExpiry :
    8 ≤ ([128, 0, 0, 0, 0, 0, 0, 0, 97] : Bytes).length ∧
      decode [128, 0, 0, 0, 0, 0, 0, 0, 97] = .ok ⟨[97], Int64.minValue⟩ ∧
      encode ⟨[97], Int64.minValue⟩ = [128, 0, 0, 0, 0, 0, 0, 0, 97] := by
  have hread : decode [128, 0, 0, 0, 0, 0, 0, 0, 97] = .ok ⟨[97], Int64.minValue⟩ := rfl
  obtain ⟨e, he, hraw⟩ :=
    format_bijective.2.2.2 [128, 0, 0, 0, 0, 0, 0, 0, 97] (by decide)
  obtain rfl := Except.ok.inj (hread.symm.trans he)
  exact ⟨by decide, hread, hraw⟩

end LayeredStore.DiskMap
