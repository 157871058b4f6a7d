import LayeredStore.Proofs.Declarations
import LayeredStore.Proofs.TableTiers

/-! # Maps of records

What a stack of tables means to its callers: one map from identifiers to fields with an
expiry.  `RecordMap.perform` is the meaning of every request, and `RecordRequest.Valid`
says which requests make sense to a schema: identifiers are not empty, names are those of
declared fields in their normal form, values have the declared types and are read back.

A record that a valid request stores fits the tables of the schema (`Layout.Fits`).
-/
namespace LayeredStore

open ExpiringMap

/-- Fields under identifiers, each with an expiry; records that have expired included. -/
abbrev RecordMap := Dictionary String (Fields × Int64)

/-- What can be asked of a stack of tables. -/
inductive RecordRequest
  /-- Write some fields of a record; without an identifier the fresh one is used. -/
  | append (id? : Option String) (fresh : String) (fields : List (String × Value))
  /-- Replace a record. -/
  | put (record : Record)
  /-- The record of an identifier. -/
  | get (id : String)
  /-- Delete a record; the answer is whether it was there. -/
  | remove (id : String)
  /-- All identifiers. -/
  | keys
  /-- The records that a query selects. -/
  | query (q : Query)
  /-- How many records pass a query's filter. -/
  | count (q : Query)
  /-- Upkeep. -/
  | upkeep (verb : Upkeep)

/-- The kind of answer that a request has. -/
def RecordRequest.Answer : RecordRequest → Type
  | .append _ _ _ => Record
  | .put _ => Unit
  | .get _ => Option Record
  | .remove _ => Bool
  | .keys => KeySet
  | .query _ => List Record
  | .count _ => Nat
  | .upkeep _ => Unit

/-- Answer a request from a stack of tables. -/
def TableStack.perform {σ : Type} [PolicyKeeper σ] (o : TableStack σ) (now : Int64) :
    (r : RecordRequest) → Action σ StoreError r.Answer
  | .append id? fresh fields => o.append now id? fresh fields
  | .put record => o.put now record
  | .get id => o.get now id
  | .remove id => o.remove now id
  | .keys => o.keys now
  | .query q => o.query now q
  | .count q => o.count now q
  | .upkeep verb => o.stack.upkeep now verb

namespace RecordMap

/-- The records that have not expired. -/
def live (map : RecordMap) (now : Int64) : RecordMap :=
  map.filter fun _ e => !isExpired e.2 now

/-- The live records in the order of their identifiers. -/
def records (map : RecordMap) (now : Int64) : List Record :=
  (map.live now).toList.map fun (id, fields, _) => ⟨id, fields⟩

/-- Answer a request from the map, where written records live for a number of seconds. -/
def perform (map : RecordMap) (lifespan : UInt64) (now : Int64) :
    (r : RecordRequest) → r.Answer × RecordMap
  | .append none fresh fields =>
    let patch := Record.ofFields fresh fields
    (patch, map.insert fresh (patch.fields, expiryAfter now lifespan))
  | .append (some id) _ fields =>
    let patch := Record.ofFields id fields
    let current : Fields := (((map.live now).get? id).map Prod.fst).getD .empty
    (patch, map.insert id (current.insertAll patch.fields.toList, expiryAfter now lifespan))
  | .put record => ((), map.insert record.id (record.fields, expiryAfter now lifespan))
  | .get id => (((map.live now).get? id).map fun e => ⟨id, e.1⟩, map)
  | .remove id => ((map.live now).contains id, map.erase id)
  | .keys => ((map.live now).map fun _ => (), map)
  | .query q => (q.finish ((map.records now).filter q.accepts), map)
  | .count q => (((map.records now).filter q.accepts).length, map)
  | .upkeep .setup | .upkeep .maintenance | .upkeep .incremental => ((), map)
  | .upkeep .teardown | .upkeep .clear => ((), .empty)

/-- The map as an expiring map of records. -/
def expiring (map : RecordMap) : ExpiringMap Record := fun id =>
  (map.get? id).map fun e => (⟨id, e.1⟩, e.2)

theorem expiring_insert (map : RecordMap) (id : String) (e : Fields × Int64) :
    expiring (map.insert id e) = (expiring map).set id (some (⟨id, e.1⟩, e.2)) :=
  read_insert (fun id e? => e?.map fun e : Fields × Int64 => ((⟨id, e.1⟩ : Record), e.2)) map id e

theorem expiring_erase (map : RecordMap) (id : String) :
    expiring (map.erase id) = (expiring map).set id none :=
  read_erase (fun id e? => e?.map fun e : Fields × Int64 => ((⟨id, e.1⟩ : Record), e.2)) map id

theorem live?_expiring (map : RecordMap) (now : Int64) (id : String) :
    (expiring map).live? now id = ((map.live now).get? id).map fun e => (⟨id, e.1⟩, e.2) := by
  rw [live, Dictionary.get?_filter, ExpiringMap.live?, expiring, Option.filter_map]
  rfl

end RecordMap

/-! ### Valid requests -/

/-- If the value is a float, it is finite and its stored form is read as itself. -/
def Value.Exact (v : Value) : Prop :=
  ∀ x, v = .float x → x.isFinite = true ∧ (Decimal.Layout.stored.numeral x).approximation = x

/-- A schema takes a value under a name as it is. -/
structure Schema.Takes (schema : Schema) (field : String × Value) : Prop where
  /-- The name is in its normal form. -/
  normal : normalizeName field.1 = field.1
  /-- The field is declared for such a value. -/
  check : schema.check field.1 field.2 = .ok ()
  /-- The value is read back. -/
  exact : field.2.Exact

/-- A request makes sense to a schema. -/
def RecordRequest.Valid (schema : Schema) : RecordRequest → Prop
  | .append id? fresh fields => id?.getD fresh ≠ "" ∧ ∀ field ∈ fields, schema.Takes field
  | .put record => record.id ≠ "" ∧ ∀ field ∈ record.fields.toList, schema.Takes field
  | _ => True

namespace Schema

variable {schema : Schema}

theorem checkAll_eq_ok_iff {fields : List (String × Value)} :
    schema.checkAll fields = .ok () ↔ ∀ field ∈ fields, schema.check field.1 field.2 = .ok () := by
  induction fields with
  | nil => exact ⟨fun _ => nofun, fun _ => rfl⟩
  | cons field rest ih =>
    rw [checkAll, List.forall_mem_cons, ← ih]
    cases schema.check field.1 field.2 with
    | error e => simp
    | ok u => simp

/-- What a check lets pass is declared, and a value of its type. -/
theorem exists_accepts_of_check {name : String} {value : Value}
    (h : schema.check name value = .ok ()) :
    ∃ type, schema.fields.get? (normalizeName name) = some type ∧ type.accepts value = true := by
  unfold check require type? at h
  cases hget : schema.fields.get? (normalizeName name) with
  | none =>
    rw [hget] at h
    cases h
  | some type =>
    rw [hget] at h
    refine ⟨type, rfl, ?_⟩
    by_contra hnot
    simp only [hnot, if_false] at h
    cases h

/-- No field takes a list, so what a check lets pass is read back. -/
theorem readsBack_of_check {name : String} {value : Value} (h : schema.check name value = .ok ())
    (hexact : value.Exact) : value.ReadsBack Stored.nesting := by
  obtain ⟨type, -, haccepts⟩ := exists_accepts_of_check h
  cases value with
  | integer n => exact .integer n
  | float x => exact .float (hexact x rfl).1 (hexact x rfl).2
  | text s => exact .text s
  | boolean b => exact .boolean b
  | blob bytes => exact .blob bytes
  | list items => cases type <;> cases haccepts

theorem Takes.readsBack {field : String × Value} (h : schema.Takes field) :
    field.2.ReadsBack Stored.nesting := readsBack_of_check h.check h.exact

/-- What is taken is declared under its name. -/
theorem Takes.mem_keys {field : String × Value} (h : schema.Takes field) :
    field.1 ∈ schema.fields.keys := by
  obtain ⟨type, hget, -⟩ := exists_accepts_of_check h.check
  rw [h.normal] at hget
  exact (Dictionary.mem_keys_iff schema.fields field.1).2 ⟨type, hget⟩

end Schema

/-- What several entries leave under a key was there before or is one of them. -/
theorem Dictionary.get?_insertAll_cases {κ α : Type} [Ord κ] [Std.TransOrd κ] [Std.LawfulEqOrd κ]
    {d : Dictionary κ α} {pairs : List (κ × α)} {key : κ} {value : α}
    (h : (d.insertAll pairs).get? key = some value) :
    d.get? key = some value ∨ (key, value) ∈ pairs := by
  induction pairs generalizing d with
  | nil => exact .inl h
  | cons e pairs ih =>
    rw [insertAll_cons] at h
    rcases ih h with hd | hmem
    · rw [get?_insert] at hd
      split at hd
      · next heq =>
        right
        obtain rfl := Option.some.inj hd
        obtain rfl := Std.LawfulEqCmp.eq_of_compare heq
        exact List.mem_cons_self
      · exact .inl hd
    · exact .inr (List.mem_cons_of_mem e hmem)

/-- A field of two records together is one of theirs. -/
theorem Record.get?_merge_cases {r patch : Record} {f : String} {value : Value}
    (h : (r.merge patch).fields.get? f = some value) :
    r.fields.get? f = some value ∨ patch.fields.get? f = some value :=
  (Dictionary.get?_insertAll_cases h).imp_right (Dictionary.get?_eq_some_iff patch.fields f value).2

/-- A field that the other record does not have stays as it is. -/
theorem Record.get?_merge_of_none {r patch : Record} {f : String}
    (h : patch.fields.get? f = none) : (r.merge patch).fields.get? f = r.fields.get? f := by
  refine Dictionary.get?_insertAll_of_notMem _ fun hmem => ?_
  obtain ⟨value, hvalue⟩ := (Dictionary.mem_keys_iff patch.fields f).1 hmem
  rw [h] at hvalue
  cases hvalue

theorem Schema.checkAll_merge {schema : Schema} {r patch : Record}
    (hr : schema.checkAll r.fields.toList = .ok ())
    (hpatch : schema.checkAll patch.fields.toList = .ok ()) :
    schema.checkAll (r.merge patch).fields.toList = .ok () := by
  rw [checkAll_eq_ok_iff] at hr hpatch ⊢
  intro field hfield
  rcases Record.get?_merge_cases ((Dictionary.get?_eq_some_iff _ _ _).2 hfield) with hold | hnew
  · exact hr field ((Dictionary.get?_eq_some_iff _ _ _).1 hold)
  · exact hpatch field ((Dictionary.get?_eq_some_iff _ _ _).1 hnew)

/-- Fields under names in their normal form are set as they are. -/
theorem Record.ofFields_eq {id : String} {fields : List (String × Value)}
    (h : ∀ field ∈ fields, normalizeName field.1 = field.1) :
    Record.ofFields id fields = ⟨id, .ofList fields⟩ := by
  have hset : ∀ r : Record, fields.foldl (fun r f => r.set f.1 f.2) r =
      ⟨r.id, r.fields.insertAll fields⟩ := by
    induction fields with
    | nil => exact fun _ => rfl
    | cons field rest ih =>
      intro r
      rw [List.foldl_cons, ih fun f hf => h f (List.mem_cons_of_mem _ hf), Dictionary.insertAll_cons,
        Record.set, h field List.mem_cons_self]
  exact hset (.blank id)

namespace Layout

variable {κ ι : Type} {L : Layout κ ι} {id : String}

/-- What a schema takes can be stored. -/
theorem fits_of_takes (hid : id ≠ "") {fields : Fields}
    (h : ∀ f value, fields.get? f = some value → L.schema.Takes (f, value)) :
    L.Fits id ⟨id, fields⟩ where
  id := rfl
  allows := by
    refine ⟨if_neg hid, Schema.checkAll_eq_ok_iff.2 fun field hfield => ?_⟩
    exact (h field.1 field.2 ((Dictionary.get?_eq_some_iff fields _ _).2 hfield)).check
  declared f value hvalue := (h f value hvalue).mem_keys
  reads f value hvalue := (h f value hvalue).readsBack

theorem fits_ofFields (hid : id ≠ "") {fields : List (String × Value)}
    (h : ∀ field ∈ fields, L.schema.Takes field) : L.Fits id (.ofFields id fields) := by
  rw [Record.ofFields_eq fun field hfield => (h field hfield).normal]
  refine fits_of_takes hid fun f value hvalue => ?_
  rcases Dictionary.get?_insertAll_cases hvalue with hempty | hmem
  · cases hempty
  · exact h _ hmem

theorem fits_of_valid {record : Record} (hid : record.id ≠ "")
    (h : ∀ field ∈ record.fields.toList, L.schema.Takes field) : L.Fits record.id record :=
  fits_of_takes hid fun f value hvalue =>
    h _ ((Dictionary.get?_eq_some_iff record.fields f value).1 hvalue)

/-- A record fits with the fields of another one that fits. -/
theorem Fits.merge {r patch : Record} (h : L.Fits id r) (hpatch : L.Fits id patch) :
    L.Fits id (r.merge patch) := by
  refine ⟨h.id, ⟨h.allows.id, Schema.checkAll_merge h.allows.fields hpatch.allows.fields⟩,
    fun f value hvalue => ?_, fun f value hvalue => ?_⟩
  · rcases Record.get?_merge_cases hvalue with hold | hnew
    · exact h.declared f value hold
    · exact hpatch.declared f value hnew
  · rcases Record.get?_merge_cases hvalue with hold | hnew
    · exact h.reads f value hold
    · exact hpatch.reads f value hnew

theorem fits_blank (hid : L.schema.checkId id = .ok ()) : L.Fits id (.blank id) :=
  ⟨rfl, ⟨hid, rfl⟩, nofun, nofun⟩

theorem Fits.checkId {r : Record} (h : L.Fits id r) : L.schema.checkId id = .ok () :=
  h.id ▸ h.allows.id

/-- The checks in front of a write let a record pass that fits. -/
theorem Fits.checked {σ : Type} {r : Record} (h : L.Fits id r) (s : σ) :
    Table.require (L.schema.checkId id) s = (.ok (), s) ∧
      Table.require (L.schema.checkAll r.fields.toList) s = (.ok (), s) := by
  rw [h.checkId, h.allows.fields]
  exact ⟨rfl, rfl⟩

/-- What an update makes of a record that fits, or of none, fits. -/
theorem Fits.patched {patch : Record} (hpatch : L.Fits id patch) {current? : Option Record}
    (h : ∀ r ∈ current?, L.Fits id r) : L.Fits id ((current?.getD (.blank id)).merge patch) := by
  cases current? with
  | none => exact (fits_blank hpatch.checkId).merge hpatch
  | some r => exact (h r rfl).merge hpatch

end Layout

end LayeredStore
