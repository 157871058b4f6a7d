import LayeredStore.Record.Names
import LayeredStore.Proofs.RecordMap
import LayeredStore.Proofs.TableViews

/-! # What a put keeps

A put checks the fields of a record under their normal names, but writes into each column what
the record has under the name of the column as it is.  A field under another spelling passes
the check and is not written; its column is cleared.  And a value that passes the check may be
read as another one, or not at all.

So after a put that succeeded, a get shows the fields that the record carried, each with a value
it carried, just if every field is also there under its normal name, with a value whose stored
form is read as one that was carried (`Table.put_shows_iff`).
-/
namespace LayeredStore

open ExpiringMap

/-! ### Fields under any spelling -/

namespace Record

/-- The record has a value for a field, under some spelling of its name. -/
def Carries (r : Record) (f : String) (value : Value) : Prop :=
  ∃ name, normalizeName name = f ∧ r.fields.get? name = some value

/-- Of some fields, a record shows exactly those that another one carries. -/
structure Shows (found r : Record) (fields : List String) : Prop where
  /-- A field is shown just when a value of it is carried. -/
  field : ∀ f ∈ fields, (found.fields.get? f).isSome = true ↔ ∃ value, r.Carries f value
  /-- The value shown is one that is carried. -/
  value : ∀ f ∈ fields, ∀ value, found.fields.get? f = some value → r.Carries f value

/-- Every field of the record is there under its normal name as well, and the stored form of that
value is read as one that is carried for the field. -/
def Lasts (r : Record) : Prop :=
  ∀ name ∈ r.fields.keys, ∃ kept read, r.fields.get? (normalizeName name) = some kept ∧
    Stored.ofBytes? (Stored.bytes kept) = some read ∧ r.Carries (normalizeName name) read

end Record

namespace Schema

variable {schema : Schema} {r : Record}

/-- Every field of a record that is allowed passes its check. -/
theorem Allows.check (h : schema.Allows r) {name : String} {value : Value}
    (hvalue : r.fields.get? name = some value) : schema.check name value = .ok () :=
  checkAll_eq_ok_iff.1 h.fields (name, value) ((Dictionary.get?_eq_some_iff _ name value).1 hvalue)

/-- What the checks let pass is declared under its normal name. -/
theorem Allows.mem_keys (h : schema.Allows r) {name : String} (hname : name ∈ r.fields.keys) :
    normalizeName name ∈ schema.fields.keys := by
  obtain ⟨value, hvalue⟩ := (Dictionary.mem_keys_iff r.fields name).1 hname
  obtain ⟨type, hget, -⟩ := exists_accepts_of_check (h.check hvalue)
  exact (Dictionary.mem_keys_iff schema.fields _).2 ⟨type, hget⟩

end Schema

/-- **A record that is read off the stored forms shows what was carried just if that lasts.** -/
theorem Record.shows_iff_lasts {found r : Record} {fields : List String}
    (hdeclared : ∀ name ∈ r.fields.keys, normalizeName name ∈ fields)
    (hnormal : ∀ f ∈ fields, normalizeName f = f)
    (hfound : ∀ f ∈ fields, found.fields.get? f =
      (r.fields.get? f).bind fun value => Stored.ofBytes? (Stored.bytes value)) :
    found.Shows r fields ↔ r.Lasts := by
  constructor
  · intro hshows name hname
    have hf := hdeclared name hname
    obtain ⟨value, hvalue⟩ := (Dictionary.mem_keys_iff r.fields name).1 hname
    obtain ⟨read, hread⟩ := Option.isSome_iff_exists.1
      ((hshows.field _ hf).2 ⟨value, name, rfl, hvalue⟩)
    have hseen := hread
    rw [hfound _ hf] at hseen
    obtain ⟨kept, hkept, hstored⟩ := Option.bind_eq_some_iff.1 hseen
    exact ⟨kept, read, hkept, hstored, hshows.value _ hf read hread⟩
  · intro hlasts
    have hvalue : ∀ f ∈ fields, ∀ value, found.fields.get? f = some value → r.Carries f value := by
      intro f hf value hvalue
      rw [hfound f hf] at hvalue
      obtain ⟨kept, hkept, hstored⟩ := Option.bind_eq_some_iff.1 hvalue
      obtain ⟨kept', read, hkept', hread, hcarries⟩ :=
        hlasts f ((Dictionary.mem_keys_iff r.fields f).2 ⟨kept, hkept⟩)
      rw [hnormal f hf] at hkept' hcarries
      obtain rfl := Option.some.inj (hkept.symm.trans hkept')
      obtain rfl := Option.some.inj (hstored.symm.trans hread)
      exact hcarries
    refine ⟨fun f hf => ⟨fun hsome => ?_, ?_⟩, hvalue⟩
    · obtain ⟨value, hsome⟩ := Option.isSome_iff_exists.1 hsome
      exact ⟨value, hvalue f hf value hsome⟩
    · rintro ⟨value, name, rfl, hname⟩
      obtain ⟨kept, read, hkept, hread, -⟩ :=
        hlasts name ((Dictionary.mem_keys_iff r.fields name).2 ⟨value, hname⟩)
      rw [hfound _ hf, hkept, Option.bind_some, hread, Option.isSome_some]

namespace Table

/-! ### The cells that a record is put into -/

namespace Cells

variable {r : Record} {expiry : Int64} {f : String}

/-- A field that is put is seen as its stored form is read. -/
theorem field?_of : (Cells.of (some (r, expiry))).field? f =
    (r.fields.get? f).bind fun value => Stored.ofBytes? (Stored.bytes value) := by
  show ((r.cell expiry f).bind fun cell => Stored.ofBytes? cell.1) = _
  rw [Record.cell]
  cases r.fields.get? f <;> rfl

/-- A record that lasts garbles no column. -/
theorem garbled_of (hlasts : r.Lasts) (hf : normalizeName f = f) :
    (Cells.of (some (r, expiry))).garbled f = false := by
  rw [garbled_eq]
  show (r.cell expiry f).any _ = false
  rw [Record.cell]
  cases hvalue : r.fields.get? f with
  | none => rfl
  | some value =>
    obtain ⟨kept, read, hkept, hread, -⟩ := hlasts f ((Dictionary.mem_keys_iff r.fields f).2
      ⟨value, hvalue⟩)
    rw [hf, hvalue] at hkept
    obtain rfl := Option.some.inj hkept
    simp [hread]

end Cells

/-- What was put is there at any time before its expiry has passed. -/
theorem Maps.cells_put_later {ι : Type} [DecidableEq ι] {maps : Maps ι} {fields : List String}
    (hnodup : (maps.places fields).Nodup) {now later : Int64} {r : Record}
    {m : ι → ExpiringMap Bytes}
    (hintact : ∀ f ∈ fields, (maps.cells m now r.id).garbled f = false) {expiry : Int64}
    (hle : now ≤ later) (hlive : isExpired expiry later = false) :
    Cells.Alike fields (maps.cells (maps.put (fun _ => none) now fields r expiry m) later r.id)
      (.of (some (r, expiry))) := by
  have hnow : isExpired expiry now = false := isExpired_earlier hle hlive
  have hput := (cells_put_whole hnodup hintact expiry).later later
  have hkept : ∀ time, isExpired expiry time = false →
      (some (r, expiry)).filter (fun e => !isExpired e.2 time) = some (r, expiry) :=
    fun time h => Option.filter_some_pos (by rw [h]; rfl)
  have hlater := Cells.of_filter (some (r, expiry)) later
  rw [hkept later hlive] at hlater
  rw [hkept now hnow] at hput
  rw [cells_later hle, hlater]
  exact hput

/-! ### Putting and getting -/

section

variable {σ ι : Type} [PolicyKeeper σ] [DecidableEq ι] {v : Vault σ ι} {sound : σ → Prop}
  (hv : v.Reliable sound) {t : Table σ} {maps : Maps ι} (ht : t.LaidOn v.backend maps)
  (hnodup : (maps.places t.schema.fields.keys).Nodup) {now : Int64} {s s' : σ}
  {m : ι → ExpiringMap Bytes} {record : Record} {expiry : Int64} (h : v.Has sound now s m)
  (hput : t.put now record expiry s = (.ok (), s'))

include hv ht hnodup h hput

/-- **What a successful put did**: the checks let the record pass, nothing that it replaced was
garbled, and every column was written. -/
theorem put_ok : t.schema.Allows record ∧
    (∀ f ∈ t.schema.fields.keys, (maps.cells m now record.id).garbled f = false) ∧
    v.Has sound now s' (maps.put (fun _ => none) now t.schema.fields.keys record expiry m) := by
  have hallows : t.schema.Allows record := by
    by_contra hnot
    obtain ⟨e, he⟩ := put_not_allowed expiry hnot
    rw [hput] at he
    cases he
  rw [← v.backend_refusing_none] at ht
  have hyields := put_yields hv (fun _ => none) ht hnodup hallows expiry h
  have hdone := (hyields.eq_ok_iff ()).1 (by rw [hput])
  refine ⟨hallows, fun f hf => ?_, by simpa [hput] using hyields.2⟩
  by_contra hgarbled
  have hany : (t.schema.fields.keys.any fun f =>
      maps.refuses (fun _ => none) f || (maps.cells m now record.id).garbled f) = true := by
    rw [List.any_eq_true]
    exact ⟨f, hf, by simpa [Maps.refuses] using hgarbled⟩
  rw [hany] at hdone
  cases hdone

/-- **A put keeps what it accepted, just if the record lasts.**  After a put that succeeded, and
before the expiry has passed, a get answers with a record that has exactly the declared fields
that were carried, each with a value carried for it, just if every field is there under its
normal name with a value whose stored form is read as one that was carried. -/
theorem put_shows_iff {later : Int64} (hle : now ≤ later)
    (hlive : isExpired expiry later = false) :
    (∃ found, (t.get later record.id s').1 = .ok (some found) ∧
        found.Shows record t.schema.fields.keys) ↔ record.Lasts := by
  obtain ⟨hallows, hintact, hafter⟩ := put_ok hv ht hnodup h hput
  have hcells := Maps.cells_put_later hnodup hintact hle hlive
  replace hafter := hafter.later hle
  generalize maps.put (fun _ => none) now t.schema.fields.keys record expiry m = after
    at hcells hafter
  have hfield : ∀ f ∈ t.schema.fields.keys, (maps.cells after later record.id).field? f =
      (record.fields.get? f).bind fun value => Stored.ofBytes? (Stored.bytes value) := by
    intro f hf
    rw [Cells.field?, hcells.column f hf, ← Cells.field?, Cells.field?_of]
  have hnames : ∀ name ∈ record.fields.keys, normalizeName name ∈ t.schema.fields.keys :=
    fun name hname => hallows.mem_keys hname
  have hnormal : ∀ f ∈ t.schema.fields.keys, normalizeName f = f :=
    fun f hf => (t.schema.keyed f hf).normal
  constructor
  · rintro ⟨found, hget, hshows⟩
    refine (Record.shows_iff_lasts hnames hnormal fun f hf => ?_).1 hshows
    rw [get?_of_get hv ht hafter hget hf, hfield f hf]
  · intro hlasts
    have hgarbled : ∀ f ∈ t.schema.fields.keys,
        (maps.cells after later record.id).garbled f = false := by
      intro f hf
      rw [Cells.garbled, hcells.column f hf, ← Cells.garbled]
      exact Cells.garbled_of hlasts (hnormal f hf)
    have hoccupied : (maps.cells after later record.id).occupied t.schema.fields.keys = true := by
      rw [Cells.occupied, hcells.mark]
      rfl
    obtain ⟨u, hu, -⟩ := get_intact hv ht hafter hgarbled
    rw [if_pos hoccupied] at hu
    refine ⟨_, congrArg Prod.fst hu, ?_⟩
    refine (Record.shows_iff_lasts hnames hnormal fun f hf => ?_).2 hlasts
    rw [Cells.get?_record, if_pos hf, hfield f hf]

end

/-- A record whose number is under a name that is not normal. -/
def shouted : Record := ⟨"r", .ofList [("NUM", .integer 42)]⟩

open Layout in
/-- The number is accepted and dropped. -/
theorem put_shows_iff_shouted :
    ∃ s', (items.table memoryVault.backend 0).put 0 shouted 0 untouched = (.ok (), s') ∧
      ¬∃ found, ((items.table memoryVault.backend 0).get 0 "r" s').1 = .ok (some found) ∧
        found.Shows shouted ["num", "str_val"] := by
  obtain ⟨s', hput⟩ : ∃ s', (items.table memoryVault.backend 0).put 0 shouted 0 untouched =
      (.ok (), s') := ⟨_, rfl⟩
  refine ⟨s', hput, fun hshows => ?_⟩
  have hlasts := (put_shows_iff (Site.vault_reliable _ _) (items.table_laidOn memoryVault.backend 0)
    (items.separate 0) untouched_has hput (Int64.le_refl 0) rfl).1 hshows
  obtain ⟨kept, -, hkept, -⟩ := hlasts "NUM" (by decide)
  cases hkept

end Table

end LayeredStore
