import LayeredStore.Proofs.DocumentReading
import LayeredStore.Stored

/-! # Stored values are read back

The stored bytes of a value give the value back (`Stored.ofBytes?_value`), whatever its
integers, texts and bytes.  A float is read with few steps instead of exactly, so for floats
it is a condition that their own numeral is read as themselves (`Value.ReadsBack`); lists
must not be nested deeper than a reader follows.
-/
namespace LayeredStore

/-- The value is read back from its document by a reader that follows so many levels. -/
inductive Value.ReadsBack : Nat → Value → Prop
  | integer {room} (n : Int64) : ReadsBack (room + 1) (.integer n)
  | float {room} {x : Binary64} (finite : x.isFinite = true)
      (exact : (Decimal.Layout.stored.numeral x).approximation = x) :
      ReadsBack (room + 1) (.float x)
  | text {room} (s : String) : ReadsBack (room + 1) (.text s)
  | boolean {room} (b : Bool) : ReadsBack (room + 1) (.boolean b)
  | blob {room} (bytes : Bytes) : ReadsBack (room + 2) (.blob bytes)
  | list {room} {items : List Value} (h : ∀ v ∈ items, ReadsBack room v) :
      ReadsBack (room + 2) (.list items)

/-- The bytes of a text are its bytes only. -/
@[simp] theorem Bytes.text?_ofText (s : String) : Bytes.text? (Bytes.ofText s) = some s := by
  have hbytes : (⟨s.toUTF8.data.toList.toArray⟩ : ByteArray) = s.toUTF8 := by simp
  have hvalid : s.toUTF8.IsValidUTF8 := s.isValidUTF8
  rw [Bytes.text?, Bytes.ofText, hbytes, String.fromUTF8?, dif_pos hvalid]
  rfl

namespace Json

theorem WellWritten.ofInt (n : Int) : (Json.ofInt n).WellWritten :=
  .number (Numeral.wellWritten_ofInt n)

/-- A float that is not finite is written as null. -/
theorem WellWritten.ofBinary64 (x : Binary64) : (Json.ofBinary64 x).WellWritten := by
  unfold Json.ofBinary64
  split
  · exact .number (Decimal.Layout.stored.wellWritten_numeral x)
  · exact .null

end Json

namespace Stored

/-! ### Integers -/

theorem int?_ofInt (n : Int) : int? (Json.ofInt n) = some n := by
  have hwhole : (Numeral.ofInt n).isWhole = true := rfl
  have hsign : ¬((Numeral.ofInt n).negative = true ∧ (Numeral.ofInt n).toInt = 0) := by
    rw [Numeral.toInt_ofInt]
    rintro ⟨hneg, hzero⟩
    have hlt : n < 0 := by simpa [Numeral.ofInt] using hneg
    omega
  rw [Json.ofInt, int?, if_pos ⟨hwhole, hsign⟩, Numeral.toInt_ofInt]

theorem intWithin?_ofInt {low high n : Int} (hlow : low ≤ n) (hhigh : n ≤ high) :
    intWithin? low high (Json.ofInt n) = some n := by
  rw [intWithin?, int?_ofInt, Option.filter_some_pos]
  simpa using ⟨hlow, hhigh⟩

theorem int64?_ofInt (n : Int64) : int64? (Json.ofInt n.toInt) = some n := by
  rw [int64?, intWithin?_ofInt (Int64.minValue_le_toInt n) (Int64.toInt_le n), Option.map_some,
    Int64.ofInt_toInt]

theorem byte?_ofInt (b : UInt8) : byte? (Json.ofInt b.toNat) = some b := by
  have hlow : (0 : Int) ≤ b.toNat := Int.natCast_nonneg _
  have hhigh : (b.toNat : Int) ≤ 255 := by
    have := b.toNat_lt
    omega
  rw [byte?, intWithin?_ofInt hlow hhigh, Option.map_some, Int.toNat_natCast, UInt8.ofNat_toNat]

/-! ### Values -/

theorem valuesJson_eq_map (items : List Value) : valuesJson items = items.map valueJson := by
  induction items with
  | nil => rfl
  | cons v items ih => rw [valuesJson, ih, List.map_cons]

theorem value?_valueJson {room : Nat} {v : Value} (h : v.ReadsBack room) :
    value? room (valueJson v) = some v := by
  induction h with
  | integer n => simp [valueJson, value?, int64?_ofInt]
  | float finite exact =>
    simp [valueJson, value?, Json.ofBinary64, finite, binary64?, exact]
  | text s => rfl
  | boolean b => rfl
  | blob bytes =>
    have hall := Json.mapM_map fun b (_ : b ∈ bytes) => byte?_ofInt b
    rw [valueJson, blobJson]
    simp only [value?, items?, hall, Option.map_some]
  | list _ ih =>
    have hall := Json.mapM_map ih
    rw [valueJson, valuesJson_eq_map]
    simp only [value?, hall, Option.map_some]

theorem wellWritten_tagged {kind : String} {payload : Json} (h : payload.WellWritten) :
    (Json.object [(kind, payload)]).WellWritten :=
  .object fun m hm => by rwa [List.mem_singleton.1 hm]

mutual
/-- Every value is written well; floats that are not finite are written as null. -/
theorem wellWritten_valueJson : (v : Value) → (valueJson v).WellWritten
  | .integer n => wellWritten_tagged (.ofInt _)
  | .float x => wellWritten_tagged (.ofBinary64 x)
  | .text s => wellWritten_tagged (.string s)
  | .boolean b => wellWritten_tagged (.boolean b)
  | .blob bytes => by
    refine wellWritten_tagged (.array fun item hitem => ?_)
    obtain ⟨b, -, rfl⟩ := List.mem_map.1 hitem
    exact .ofInt _
  | .list items => wellWritten_tagged (.array (wellWritten_valuesJson items))

theorem wellWritten_valuesJson : (items : List Value) → ∀ j ∈ valuesJson items, j.WellWritten
  | [] => nofun
  | v :: rest => List.forall_mem_cons.2 ⟨wellWritten_valueJson v, wellWritten_valuesJson rest⟩
end

/-- **A well-written document is read from its bytes.** -/
theorem ofBytes?_bytes {α : Type} [Stored α] {a : α} (hw : (toJson a).WellWritten) :
    (ofBytes? (bytes a) : Option α) = ofJson? nesting (toJson a) := by
  rw [ofBytes?, bytes, Bytes.text?_ofText]
  simp only [ofText?, text, ofCharacters?, String.toList_ofList, hw.ofText?_text,
    Option.bind_some]

/-- **A stored value is read back.** -/
theorem ofBytes?_value {v : Value} (h : v.ReadsBack nesting) : ofBytes? (bytes v) = some v :=
  (ofBytes?_bytes (wellWritten_valueJson v)).trans (value?_valueJson h)

end Stored

end LayeredStore
