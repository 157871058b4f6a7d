import LayeredStore.Proofs.ShortestDecimals
import LayeredStore.Proofs.StoredForms

/-! # Values that are stored alike

The stored bytes of a value tell everything about it, except which infinity or NaN a float is that
is not finite: all of those are written as null (`Stored.bytes_eq_iff_alike`).  Whether two values
are the same is a finer question, for which only the NaNs are taken for one (`Value.Same`).  The two
come to the same for values in which every float is finite (`Value.alike_iff_same`).
-/
namespace LayeredStore

namespace Binary64

/-- The datum, with all NaNs taken for one. -/
def unified (x : Binary64) : Binary64 := if x.isNaN then nan else x

/-- The datum, with all infinities and NaNs taken for one. -/
def blurred (x : Binary64) : Binary64 := if x.isFinite then x else nan

theorem blurred_of_finite {x : Binary64} (h : x.isFinite = true) : x.blurred = x := if_pos h

theorem isFinite_of_blurred {x : Binary64} (h : x.blurred.isFinite = true) : x.isFinite = true := by
  unfold blurred at h
  split at h
  · assumption
  · exact absurd h (by decide)

/-- Taking the NaNs for one is no more than taking all that is not finite for one. -/
theorem blurred_unified (x : Binary64) : x.unified.blurred = x.blurred := by
  unfold unified
  split
  · next hnan =>
    have hinfinite : x.isFinite = false := by
      simp only [isFinite, isNaN, decide_eq_true_eq, decide_eq_false_iff_not] at *
      omega
    rw [blurred, blurred, hinfinite]
    rfl
  · rfl

end Binary64

namespace Value

mutual
/-- The value with its floats changed, at any depth. -/
def mapFloats (f : Binary64 → Binary64) : Value → Value
  | .integer n => .integer n
  | .float x => .float (f x)
  | .text s => .text s
  | .boolean b => .boolean b
  | .blob bytes => .blob bytes
  | .list items => .list (mapFloatsOf f items)

/-- Several values with their floats changed. -/
def mapFloatsOf (f : Binary64 → Binary64) : List Value → List Value
  | [] => []
  | v :: rest => v.mapFloats f :: mapFloatsOf f rest
end

/-- Two values are the same, up to the bits of NaNs. -/
def Same (a b : Value) : Prop := a.mapFloats Binary64.unified = b.mapFloats Binary64.unified

/-- Two values are the same, up to which infinity or NaN a float is. -/
def Alike (a b : Value) : Prop := a.mapFloats Binary64.blurred = b.mapFloats Binary64.blurred

instance (a b : Value) : Decidable (a.Same b) := inferInstanceAs (Decidable (_ = _))

instance (a b : Value) : Decidable (a.Alike b) := inferInstanceAs (Decidable (_ = _))

mutual
theorem floats_mapFloats (f : Binary64 → Binary64) : (v : Value) →
    (v.mapFloats f).floats = v.floats.map f
  | .integer _ | .text _ | .boolean _ | .blob _ => rfl
  | .float _ => rfl
  | .list items => floatsOf_mapFloatsOf f items

theorem floatsOf_mapFloatsOf (f : Binary64 → Binary64) : (items : List Value) →
    floatsOf (mapFloatsOf f items) = (floatsOf items).map f
  | [] => rfl
  | v :: rest => by
    rw [mapFloatsOf, floatsOf, floatsOf, List.map_append, floats_mapFloats f v,
      floatsOf_mapFloatsOf f rest]
end

mutual
/-- Changing floats twice is changing them once by both changes. -/
theorem mapFloats_mapFloats (f g : Binary64 → Binary64) : (v : Value) →
    (v.mapFloats g).mapFloats f = v.mapFloats fun x => f (g x)
  | .integer _ | .text _ | .boolean _ | .blob _ => rfl
  | .float _ => rfl
  | .list items => congrArg list (mapFloatsOf_mapFloatsOf f g items)

theorem mapFloatsOf_mapFloatsOf (f g : Binary64 → Binary64) : (items : List Value) →
    mapFloatsOf f (mapFloatsOf g items) = mapFloatsOf (fun x => f (g x)) items
  | [] => rfl
  | v :: rest => by
    rw [mapFloatsOf, mapFloatsOf, mapFloatsOf, mapFloats_mapFloats f g v,
      mapFloatsOf_mapFloatsOf f g rest]
end

mutual
/-- A change that leaves every float of a value as it is leaves the value as it is. -/
theorem mapFloats_of_forall {f : Binary64 → Binary64} : (v : Value) →
    (∀ x ∈ v.floats, f x = x) → v.mapFloats f = v
  | .integer _, _ | .text _, _ | .boolean _, _ | .blob _, _ => rfl
  | .float _, h => congrArg float (h _ List.mem_cons_self)
  | .list items, h => congrArg list (mapFloatsOf_of_forall items h)

theorem mapFloatsOf_of_forall {f : Binary64 → Binary64} : (items : List Value) →
    (∀ x ∈ floatsOf items, f x = x) → mapFloatsOf f items = items
  | [], _ => rfl
  | v :: rest, h => by
    obtain ⟨hv, hrest⟩ := List.forall_mem_append.1 h
    rw [mapFloatsOf, mapFloats_of_forall v hv, mapFloatsOf_of_forall rest hrest]
end

/-- The same values are alike. -/
theorem Same.alike {a b : Value} (h : a.Same b) : a.Alike b := by
  have hblurred : ∀ v : Value,
      (v.mapFloats Binary64.unified).mapFloats Binary64.blurred = v.mapFloats Binary64.blurred :=
    fun v => by rw [mapFloats_mapFloats, funext Binary64.blurred_unified]
  rw [Alike, ← hblurred a, ← hblurred b]
  exact congrArg _ h

/-- A value in which every float is finite is like no other. -/
theorem alike_iff_eq {a b : Value} (h : ∀ x ∈ a.floats, x.isFinite = true) :
    a.Alike b ↔ a = b := by
  refine ⟨fun halike => ?_, fun heq => heq ▸ rfl⟩
  have ha : a.mapFloats Binary64.blurred = a :=
    mapFloats_of_forall a fun x hx => Binary64.blurred_of_finite (h x hx)
  have hfloats : a.floats = b.floats.map Binary64.blurred := by
    rw [← floats_mapFloats, ← halike, ha]
  have hb : b.mapFloats Binary64.blurred = b := mapFloats_of_forall b fun x hx => by
    have hfinite := h x.blurred (hfloats ▸ List.mem_map_of_mem hx)
    exact Binary64.blurred_of_finite (Binary64.isFinite_of_blurred hfinite)
  rw [← ha, halike, hb]

/-- **Where every float is finite, alike is the same.** -/
theorem alike_iff_same {a b : Value} (h : ∀ x ∈ a.floats, x.isFinite = true) :
    a.Alike b ↔ a.Same b :=
  ⟨fun halike => (alike_iff_eq h).1 halike ▸ rfl, Same.alike⟩

end Value

/-! ### Documents -/

namespace Stored

theorem ofBinary64_blurred (x : Binary64) : Json.ofBinary64 x.blurred = Json.ofBinary64 x := by
  unfold Binary64.blurred
  split
  · rfl
  · next hx =>
    rw [Json.ofBinary64, Json.ofBinary64, if_neg hx]
    rfl

/-- The document of a float tells its bits if it is finite, and else that it is not. -/
theorem blurred_eq_of_ofBinary64 {x y : Binary64} (h : Json.ofBinary64 x = Json.ofBinary64 y) :
    x.blurred = y.blurred := by
  unfold Json.ofBinary64 at h
  unfold Binary64.blurred
  by_cases hx : x.isFinite = true <;> by_cases hy : y.isFinite = true
  · rw [if_pos hx, if_pos hy] at h ⊢
    exact (Decimal.Layout.stored.numeral_inj hx hy).1 (Json.number.inj h)
  · rw [if_pos hx, if_neg hy] at h
    cases h
  · rw [if_neg hx, if_pos hy] at h
    cases h
  · rw [if_neg hx, if_neg hy]

mutual
/-- What a value is written as does not tell what it is blurred to. -/
theorem valueJson_blurred : (v : Value) → valueJson (v.mapFloats Binary64.blurred) = valueJson v
  | .integer _ | .text _ | .boolean _ | .blob _ => rfl
  | .float x => by rw [Value.mapFloats, valueJson, valueJson, ofBinary64_blurred]
  | .list items => by rw [Value.mapFloats, valueJson, valueJson, valuesJson_blurred items]

theorem valuesJson_blurred : (items : List Value) →
    valuesJson (Value.mapFloatsOf Binary64.blurred items) = valuesJson items
  | [] => rfl
  | v :: rest => by
    rw [Value.mapFloatsOf, valuesJson, valuesJson, valueJson_blurred v, valuesJson_blurred rest]
end

/-- Lists of values are alike item by item. -/
theorem alike_of_valuesJson_eq {as bs : List Value}
    (hitems : ∀ a ∈ as, ∀ b, valueJson a = valueJson b → a.Alike b)
    (h : valuesJson as = valuesJson bs) :
    Value.mapFloatsOf Binary64.blurred as = Value.mapFloatsOf Binary64.blurred bs := by
  induction as generalizing bs with
  | nil =>
    cases bs with
    | nil => rfl
    | cons b bs => cases h
  | cons a as ih =>
    cases bs with
    | nil => cases h
    | cons b bs =>
      obtain ⟨hitem, hitems⟩ := List.forall_mem_cons.1 hitems
      obtain ⟨hfirst, hrest⟩ := List.cons.inj h
      rw [Value.mapFloatsOf, Value.mapFloatsOf, ih hitems hrest]
      exact congrArg (· :: _) (hitem b hfirst)

/-- Values that are written as one document are alike. -/
theorem alike_of_valueJson_eq : (a b : Value) → valueJson a = valueJson b → a.Alike b
  | .integer m, b, h => by
    cases b with
    | integer n =>
      have hpayload : Json.ofInt m.toInt = Json.ofInt n.toInt := by simpa [valueJson] using h
      have hread := congrArg int64? hpayload
      rw [int64?_ofInt, int64?_ofInt] at hread
      rw [Option.some.inj hread]
      rfl
    | _ => simp [valueJson] at h
  | .float x, b, h => by
    cases b with
    | float y =>
      have hpayload : Json.ofBinary64 x = Json.ofBinary64 y := by simpa [valueJson] using h
      exact congrArg Value.float (blurred_eq_of_ofBinary64 hpayload)
    | _ => simp [valueJson] at h
  | .text s, b, h => by
    cases b with
    | text t =>
      obtain rfl : s = t := by simpa [valueJson] using h
      rfl
    | _ => simp [valueJson] at h
  | .boolean p, b, h => by
    cases b with
    | boolean q =>
      obtain rfl : p = q := by simpa [valueJson] using h
      rfl
    | _ => simp [valueJson] at h
  | .blob bytes, b, h => by
    cases b with
    | blob others =>
      have hpayload : blobJson bytes = blobJson others := by simpa [valueJson] using h
      have hread := congrArg (items? (fun _ => byte?) 1) hpayload
      have hall : ∀ bytes : Bytes, items? (fun _ => byte?) 1 (blobJson bytes) = some bytes :=
        fun bytes => Json.mapM_map fun b _ => byte?_ofInt b
      rw [hall, hall] at hread
      rw [Option.some.inj hread]
      rfl
    | _ => simp [valueJson] at h
  | .list items, b, h => by
    cases b with
    | list others =>
      have hpayload : valuesJson items = valuesJson others := by simpa [valueJson] using h
      exact congrArg Value.list
        (alike_of_valuesJson_eq (fun item _ => alike_of_valueJson_eq item) hpayload)
    | _ => simp [valueJson] at h

theorem valueJson_eq_iff {a b : Value} : valueJson a = valueJson b ↔ a.Alike b := by
  refine ⟨alike_of_valueJson_eq a b, fun h => ?_⟩
  rw [← valueJson_blurred a, ← valueJson_blurred b]
  exact congrArg valueJson h

/-- Well-written documents are told apart by their bytes. -/
theorem bytes_eq_iff {α : Type} [Stored α] {a b : α} (ha : (toJson a).WellWritten)
    (hb : (toJson b).WellWritten) : bytes a = bytes b ↔ toJson a = toJson b := by
  refine ⟨fun h => ?_, fun h => by rw [bytes, text, h]; rfl⟩
  have htext := congrArg Bytes.text? h
  rw [bytes, bytes, Bytes.text?_ofText, Bytes.text?_ofText] at htext
  have hread := congrArg (fun s => Json.ofText? s.toList) (Option.some.inj htext)
  simp only [text, String.toList_ofList, ha.ofText?_text, hb.ofText?_text] at hread
  exact Option.some.inj hread

/-- **The stored bytes of values are equal exactly if the values are alike.** -/
theorem bytes_eq_iff_alike {a b : Value} : bytes a = bytes b ↔ a.Alike b :=
  (bytes_eq_iff (wellWritten_valueJson a) (wellWritten_valueJson b)).trans valueJson_eq_iff

end Stored
end LayeredStore
