import LayeredStore.Proofs.Frames
import LayeredStore.Record.Names
import LayeredStore.Proofs.TableViews

/-! # What a table accepts and reads back

Writing some fields of a record leaves its other cells alone (`Table.Cells.overwritten`), so a
table then has the written fields with the last values supplied for them, and the others as
they were: provided that the values are read back.  A schema lets every float into a column of
floats, but a float that is not finite is stored as `null`, and one whose numeral is not read
as itself comes back as another one (`Stored.ofBytes?_eq_some_iff`).  So that is what it
depends on whether the record and the whole table can be read (`Table.append_readable_iff`).
-/
namespace LayeredStore

open ExpiringMap

/-! ### Stored values -/

namespace Stored

/-- The document of every float is well written. -/
theorem wellWritten_float (x : Binary64) : (valueJson (.float x)).WellWritten := by
  refine .object fun m hm => ?_
  obtain rfl := List.mem_singleton.1 hm
  exact Json.WellWritten.ofBinary64 x

/-- **A value that is no list is read back from its bytes just if it is exact.** -/
theorem ofBytes?_eq_some_iff {v : Value} (h : ∀ items, v ≠ .list items) :
    ofBytes? (bytes v) = some v ↔ v.Exact := by
  cases v with
  | integer n => exact iff_of_true (ofBytes?_value (.integer n)) nofun
  | text s => exact iff_of_true (ofBytes?_value (.text s)) nofun
  | boolean b => exact iff_of_true (ofBytes?_value (.boolean b)) nofun
  | blob bytes => exact iff_of_true (ofBytes?_value (.blob bytes)) nofun
  | list items => exact absurd rfl (h items)
  | float x =>
    have hread : (ofBytes? (bytes (Value.float x)) : Option Value) =
        (binary64? (Json.ofBinary64 x)).map .float := ofBytes?_bytes (wellWritten_float x)
    rw [hread]
    constructor
    · rintro hsame y hy
      cases hy
      unfold Json.ofBinary64 at hsame
      split at hsame
      · next hfinite =>
        obtain ⟨y, hy, heq⟩ := Option.map_eq_some_iff.1 hsame
        cases heq
        rw [binary64?, Option.filter_eq_some_iff] at hy
        exact ⟨hfinite, Option.some.inj hy.1⟩
      · cases hsame
    · intro hexact
      obtain ⟨hfinite, hvalue⟩ := hexact x rfl
      simp [Json.ofBinary64, hfinite, binary64?, hvalue]

end Stored

/-! ### Fields as they are supplied -/

/-- The last value supplied for a field, names compared in their normal form. -/
def lastSupplied (fields : List (String × Value)) (f : String) : Option Value :=
  (fields.reverse.find? fun field => normalizeName field.1 == f).map Prod.snd

theorem lastSupplied_cons (field : String × Value) (rest : List (String × Value)) (f : String) :
    lastSupplied (field :: rest) f =
      (lastSupplied rest f).or (if normalizeName field.1 = f then some field.2 else none) := by
  rw [lastSupplied, List.reverse_cons, List.find?_append, lastSupplied]
  cases rest.reverse.find? fun field => normalizeName field.1 == f with
  | some last => rfl
  | none =>
    by_cases hname : normalizeName field.1 = f <;> simp [hname]

/-- Setting fields keeps the last value of each. -/
theorem Record.get?_ofFields (id : String) (fields : List (String × Value)) (f : String) :
    (Record.ofFields id fields).fields.get? f = lastSupplied fields f := by
  have hset : ∀ r : Record, (fields.foldl (fun r f => r.set f.1 f.2) r).fields.get? f =
      (lastSupplied fields f).or (r.fields.get? f) := by
    induction fields with
    | nil => exact fun _ => rfl
    | cons field rest ih =>
      intro r
      rw [List.foldl_cons, ih, lastSupplied_cons, Option.or_assoc]
      by_cases hname : normalizeName field.1 = f
      · subst hname
        rw [if_pos rfl, Record.set, Dictionary.get?_insert_self]
        rfl
      · rw [if_neg hname, Record.set, Dictionary.get?_insert_of_ne _ hname]
        rfl
  exact (hset (.blank id)).trans Option.or_none

/-- A value that a later one replaces is no part of the record. -/
theorem Record.ofFields_of_lastSupplied {fields fields' : List (String × Value)}
    (h : lastSupplied fields = lastSupplied fields') (id : String) :
    Record.ofFields id fields = Record.ofFields id fields' := by
  refine Record.ext ?_ (Dictionary.ext_get? fun f => ?_)
  · rw [Record.id_ofFields, Record.id_ofFields]
  · rw [Record.get?_ofFields, Record.get?_ofFields, h]

/-- Fields are set under names in their normal form. -/
theorem normalizeName_of_lastSupplied {fields : List (String × Value)} {f : String} {value : Value}
    (h : lastSupplied fields f = some value) : normalizeName f = f := by
  obtain ⟨field, hfind, -⟩ := Option.map_eq_some_iff.1 h
  have hname : normalizeName field.1 = f := by simpa using List.find?_some hfind
  rw [← hname, normalizeName_normalizeName]

section

variable {schema : Schema} {id : String} {fields : List (String × Value)}
  (h : schema.checkAll (Record.ofFields id fields).fields.toList = .ok ())
include h

/-- What the checks let pass is supplied for a declared field, and is a value of its type. -/
theorem Schema.exists_accepts_of_checkAll {f : String} {value : Value}
    (hsupplied : lastSupplied fields f = some value) :
    ∃ type, schema.fields.get? f = some type ∧ type.accepts value = true := by
  have hmem : (f, value) ∈ (Record.ofFields id fields).fields.toList := by
    rw [← Record.get?_ofFields id fields f] at hsupplied
    exact (Dictionary.get?_eq_some_iff _ f value).1 hsupplied
  obtain ⟨type, hget, haccepts⟩ := exists_accepts_of_check (checkAll_eq_ok_iff.1 h _ hmem)
  rw [normalizeName_of_lastSupplied hsupplied] at hget
  exact ⟨type, hget, haccepts⟩

/-- No field takes a list, so the supplied values that are read back are the exact ones. -/
theorem Schema.stored_iff_exact {f : String} {value : Value}
    (hsupplied : lastSupplied fields f = some value) :
    Stored.ofBytes? (Stored.bytes value) = some value ↔ value.Exact := by
  obtain ⟨type, -, haccepts⟩ := exists_accepts_of_checkAll h hsupplied
  refine Stored.ofBytes?_eq_some_iff fun items heq => ?_
  subst heq
  cases type <;> cases haccepts

theorem Schema.declared_of_checkAll :
    ∀ f ∈ (Record.ofFields id fields).fields.keys, f ∈ schema.fields.keys := by
  intro f hf
  obtain ⟨value, hvalue⟩ := (Dictionary.mem_keys_iff _ f).1 hf
  rw [Record.get?_ofFields] at hvalue
  obtain ⟨type, hget, -⟩ := exists_accepts_of_checkAll h hvalue
  exact (Dictionary.mem_keys_iff schema.fields f).2 ⟨type, hget⟩

end

namespace Table

/-! ### Cells that are overwritten -/

/-- The cells after the fields of a record were written over them. -/
def Cells.overwritten (c : Cells) (r : Record) (expiry : Int64) : Cells :=
  ⟨some (indexMarker, expiry), fun f => (r.cell expiry f).or (c.column f)⟩

theorem Cells.field?_overwritten (c : Cells) (r : Record) (expiry : Int64) (f : String) :
    (c.overwritten r expiry).field? f =
      match r.fields.get? f with
      | some value => Stored.ofBytes? (Stored.bytes value)
      | none => c.field? f := by
  cases hvalue : r.fields.get? f <;>
    simp [Cells.field?, Cells.overwritten, Record.cell, hvalue]

/-- Nothing is garbled where the values written are read as some values. -/
theorem Cells.garbled_overwritten {c : Cells} {r : Record} {expiry : Int64} {f : String}
    (hc : c.garbled f = false) (hr : ∀ value, r.fields.get? f = some value →
      Stored.ofBytes? (Stored.bytes value) = some value) :
    (c.overwritten r expiry).garbled f = false := by
  rw [Cells.garbled_eq] at hc ⊢
  cases hvalue : r.fields.get? f with
  | none => simpa [Cells.overwritten, Record.cell, hvalue] using hc
  | some value => simp [Cells.overwritten, Record.cell, hvalue, hr value hvalue]

variable {ι : Type} [DecidableEq ι] {maps : Maps ι}

/-- The maps after the mark and the fields of a record were written. -/
def Maps.appended (maps : Maps ι) (r : Record) (expiry : Int64) (m : ι → ExpiringMap Bytes) :
    ι → ExpiringMap Bytes :=
  maps.write r.id (r.cell expiry) r.fields.keys
    (Function.update m maps.index ((m maps.index).set r.id (some (indexMarker, expiry))))

/-- The cells of the record that was written, as far as they have not expired. -/
theorem Maps.cells_appended_later {keys : List String} (hnodup : (maps.places keys).Nodup)
    {r : Record} (hdeclared : ∀ f ∈ r.fields.keys, f ∈ keys) (expiry time : Int64)
    (m : ι → ExpiringMap Bytes) :
    Cells.Alike keys (maps.cells (maps.appended r expiry m) time r.id)
      (((maps.cells m time r.id).overwritten r expiry).later time) := by
  obtain ⟨hindex, hcolumns⟩ := List.nodup_cons.1 hnodup
  have hwritten : (r.fields.keys.map maps.column) ⊆ keys.map maps.column :=
    List.map_subset maps.column hdeclared
  have hinjective : ∀ f ∈ keys, maps.column f ∈ r.fields.keys.map maps.column →
      f ∈ r.fields.keys := by
    intro f hf hmem
    obtain ⟨g, hg, heq⟩ := List.mem_map.1 hmem
    obtain rfl := List.inj_on_of_nodup_map hcolumns (hdeclared g hg) hf heq
    exact hg
  have hnodupWritten : (r.fields.keys.map maps.column).Nodup :=
    List.Nodup.map_on (fun f hf g hg heq =>
      List.inj_on_of_nodup_map hcolumns (hdeclared f hf) (hdeclared g hg) heq)
      (Dictionary.nodup_keys r.fields)
  constructor
  · simp only [cells, appended, Cells.overwritten, Cells.later]
    rw [write_of_notMem fun hmem => hindex (hwritten hmem), Function.update_self, live?_set_self]
  · intro f hf
    have hne : maps.column f ≠ maps.index := fun heq => hindex (heq ▸ List.mem_map_of_mem hf)
    simp only [cells, appended, Cells.overwritten, Cells.later]
    by_cases hfield : f ∈ r.fields.keys
    · obtain ⟨value, hvalue⟩ := (Dictionary.mem_keys_iff r.fields f).1 hfield
      rw [write_column hnodupWritten hfield, live?_set_self, Record.cell, hvalue]
      rfl
    · have hnone : r.fields.get? f = none := by
        cases hvalue : r.fields.get? f with
        | none => rfl
        | some value => exact absurd ((Dictionary.mem_keys_iff r.fields f).2 ⟨value, hvalue⟩) hfield
      rw [write_of_notMem (mt (hinjective f hf) hfield), Function.update_of_ne hne, Record.cell,
        hnone, Option.map_none, Option.none_or, ← live?_later (Int64.le_refl time)]

/-- The cells at a time when those that were written are live. -/
theorem Maps.cells_appended {keys : List String} (hnodup : (maps.places keys).Nodup)
    {r : Record} (hdeclared : ∀ f ∈ r.fields.keys, f ∈ keys) {expiry later : Int64}
    (hlive : isExpired expiry later = false) (m : ι → ExpiringMap Bytes) :
    Cells.Alike keys (maps.cells (maps.appended r expiry m) later r.id)
      ((maps.cells m later r.id).overwritten r expiry) := by
  have hkept : ∀ bytes : Bytes, (some (bytes, expiry)).filter (fun cell => !isExpired cell.2 later) =
      some (bytes, expiry) := fun bytes => Option.filter_some_pos (by rw [hlive]; rfl)
  refine (cells_appended_later hnodup hdeclared expiry later m).trans ⟨hkept _, fun f _ => ?_⟩
  simp only [Cells.later, Cells.overwritten, cells, Record.cell]
  cases r.fields.get? f with
  | none => exact (live?_later (Int64.le_refl later) _ _).symm
  | some value => exact hkept _

/-- The cells of other identifiers are not touched. -/
theorem Maps.cells_appended_of_ne {id : String} {r : Record} (hid : id ≠ r.id)
    (expiry time : Int64) (m : ι → ExpiringMap Bytes) :
    maps.cells (maps.appended r expiry m) time id = maps.cells m time id := by
  have hsame : ∀ i, (Function.update m maps.index ((m maps.index).set r.id
      (some (indexMarker, expiry))) i).live? time id = (m i).live? time id := by
    intro i
    by_cases hi : i = maps.index
    · subst hi
      rw [Function.update_self, live?_set_of_ne _ _ hid]
    · rw [Function.update_of_ne hi]
  simp only [cells, appended, live?_write_of_ne hid, hsame]

section

variable {keys : List String} (hnodup : (maps.places keys).Nodup) {r : Record}
  (hdeclared : ∀ f ∈ r.fields.keys, f ∈ keys) {expiry time : Int64}
  (hlive : isExpired expiry time = false) {m : ι → ExpiringMap Bytes}

include hnodup hdeclared hlive

/-- A written field has what its stored value is read as, and the others have what they had. -/
theorem Maps.field?_appended {f : String} (hf : f ∈ keys) :
    (maps.cells (maps.appended r expiry m) time r.id).field? f =
      match r.fields.get? f with
      | some value => Stored.ofBytes? (Stored.bytes value)
      | none => (maps.cells m time r.id).field? f := by
  rw [Cells.field?, (cells_appended hnodup hdeclared hlive m).column f hf, ← Cells.field?,
    Cells.field?_overwritten]

/-- The record that was written is there. -/
theorem Maps.occupied_appended :
    (maps.cells (maps.appended r expiry m) time r.id).occupied keys = true := by
  rw [Cells.occupied, (cells_appended hnodup hdeclared hlive m).mark]
  rfl

/-- Writing values that are read back garbles no cell. -/
theorem Maps.intact_appended
    (hintact : ∀ id, ∀ f ∈ keys, (maps.cells m time id).garbled f = false)
    (hreads : ∀ f value, r.fields.get? f = some value →
      Stored.ofBytes? (Stored.bytes value) = some value) :
    ∀ id, ∀ f ∈ keys, (maps.cells (maps.appended r expiry m) time id).garbled f = false := by
  intro id f hf
  by_cases hid : id = r.id
  · subst hid
    rw [Cells.garbled, (cells_appended hnodup hdeclared hlive m).column f hf]
    exact Cells.garbled_overwritten (hintact _ f hf) (hreads f)
  · rw [cells_appended_of_ne hid]
    exact hintact id f hf

end

end Table

/-! ### Writing fields -/

namespace Table

variable {σ ι : Type} [PolicyKeeper σ] [DecidableEq ι] {v : Vault σ ι} {sound : σ → Prop}
  (hv : v.Reliable sound) {t : Table σ} {maps : Maps ι} (ht : t.LaidOn v.backend maps)
  {now : Int64} {s : σ} {m : ι → ExpiringMap Bytes}

include hv ht

/-- Fields of which no old value is garbled are written one after another. -/
theorem writeFields_ok (hnodup : (t.schema.fields.keys.map maps.column).Nodup) {id : String}
    {expiry : Int64} {cell : String → Option (Bytes × Int64)} {pairs : List (String × Value)}
    (hcell : ∀ p ∈ pairs, cell p.1 = some (Stored.bytes p.2, expiry))
    (hdeclared : ∀ p ∈ pairs, p.1 ∈ t.schema.fields.keys) (hnames : (pairs.map Prod.fst).Nodup)
    (hintact : ∀ p ∈ pairs, (maps.cells m now id).garbled p.1 = false)
    (h : v.Has sound now s m) :
    ∃ u, t.writeFields now id expiry pairs s = (.ok (), u) ∧
      v.Has sound now u (maps.write id cell (pairs.map Prod.fst) m) := by
  induction pairs generalizing s m with
  | nil => exact ⟨s, rfl, h⟩
  | cons p rest ih =>
    obtain ⟨f, value⟩ := p
    obtain ⟨hnot, hrest⟩ := List.nodup_cons.1 hnames
    have hf : f ∈ t.schema.fields.keys := hdeclared _ List.mem_cons_self
    have hput := column_put_yields hv (fun _ => none) h (maps.column f) id value expiry
    rw [v.backend_refusing_none] at hput
    have hold : ∃ old?, Cells.value? ((m (maps.column f)).live? now id) = some old? := by
      have hgarbled := hintact _ List.mem_cons_self
      rw [Cells.garbled, Option.isNone_eq_false_iff, Option.isSome_iff_exists] at hgarbled
      exact hgarbled
    obtain ⟨old?, hold⟩ := hold
    rw [hold] at hput
    obtain ⟨u, hu, hhas⟩ := hput.ok
    have hlater : ∀ q ∈ rest, (maps.cells (maps.write id cell [f] m) now id).garbled q.1 = false := by
      intro q hq
      have hne : maps.column q.1 ∉ [f].map maps.column := by
        intro hmem
        have heq := List.inj_on_of_nodup_map hnodup
          (hdeclared q (List.mem_cons_of_mem _ hq)) hf (List.mem_singleton.1 hmem)
        exact hnot (List.mem_map.2 ⟨q, hq, heq⟩)
      have hbefore := hintact q (List.mem_cons_of_mem _ hq)
      simpa only [Cells.garbled, Maps.cells, Maps.write_of_notMem hne] using hbefore
    have hwrite : maps.write id cell [f] m =
        Function.update m (maps.column f)
          ((m (maps.column f)).set id (some (Stored.bytes value, expiry))) := by
      rw [Maps.write_cons, hcell _ List.mem_cons_self]
      rfl
    rw [hwrite] at hlater
    obtain ⟨w, hw, hfinal⟩ := ih (fun q hq => hcell q (List.mem_cons_of_mem _ hq))
      (fun q hq => hdeclared q (List.mem_cons_of_mem _ hq)) hrest hlater hhas
    refine ⟨w, ?_, ?_⟩
    · rw [writeFields, ht.get?_column hf]
      exact (Action.bind_ok (Action.mapError_ok hu _) _).trans hw
    · rw [List.map_cons, Maps.write_cons, hcell _ List.mem_cons_self]
      exact hfinal

/-- **A write of some fields that the checks let pass**: the mark and the columns of these
fields have the new cells. -/
theorem appendExpiring_done (hnodup : (maps.places t.schema.fields.keys).Nodup)
    {id? : Option String} {fresh : String} {fields : List (String × Value)} (expiry : Int64)
    (hid : id?.elim (.ok ()) t.schema.checkId = .ok ())
    (hallowed : t.schema.checkAll (Record.ofFields (id?.getD fresh) fields).fields.toList = .ok ())
    (hintact : ∀ f ∈ t.schema.fields.keys,
      (maps.cells m now (id?.getD fresh)).garbled f = false) (h : v.Has sound now s m) :
    ∃ s', t.appendExpiring now id? fresh fields expiry s =
        (.ok (Record.ofFields (id?.getD fresh) fields), s') ∧
      v.Has sound now s' (maps.appended (Record.ofFields (id?.getD fresh) fields) expiry m) := by
  rw [appendExpiring_eq, Action.bind_ok (a := ()) (t := s) (by rw [require, hid]; rfl),
    Action.bind_ok (a := ()) (t := s) (by rw [require, hallowed]; rfl)]
  have hrecord := Record.id_ofFields (id?.getD fresh) fields
  have hdeclared := Schema.declared_of_checkAll hallowed
  generalize Record.ofFields (id?.getD fresh) fields = r at hrecord hdeclared ⊢
  rw [← hrecord] at hintact
  obtain ⟨hindex, hcolumns⟩ := List.nodup_cons.1 hnodup
  have hput := put_backend_yields hv (fun _ => none) h maps.index r.id indexMarker expiry
  rw [v.backend_refusing_none, ← ht.index] at hput
  obtain ⟨u, hu, hhas⟩ := hput.ok
  have hmarked : t.mark now r.id expiry s = (.ok (), u) :=
    Action.bind_ok (Action.mapError_ok hu StoreError.storage) _
  replace hdeclared : ∀ p ∈ r.fields.toList, p.1 ∈ t.schema.fields.keys := fun p hp =>
    hdeclared p.1 (List.mem_map_of_mem hp)
  have hcell : ∀ p ∈ r.fields.toList, r.cell expiry p.1 = some (Stored.bytes p.2, expiry) := by
    intro p hp
    rw [Record.cell, (Dictionary.get?_eq_some_iff r.fields p.1 p.2).2 hp]
    rfl
  have hkept : ∀ p ∈ r.fields.toList, (maps.cells (Function.update m maps.index
      ((m maps.index).set r.id (some (indexMarker, expiry)))) now r.id).garbled p.1 = false := by
    intro p hp
    have hne : maps.column p.1 ≠ maps.index := fun heq =>
      hindex (heq ▸ List.mem_map_of_mem (hdeclared p hp))
    have hbefore := hintact p.1 (hdeclared p hp)
    simpa only [Cells.garbled, Maps.cells, Function.update_of_ne hne] using hbefore
  obtain ⟨w, hw, hfinal⟩ := writeFields_ok hv ht hcolumns hcell hdeclared
    (Dictionary.nodup_keys r.fields) hkept hhas
  exact ⟨w, (Action.bind_ok hmarked _).trans (Action.bind_ok hw _), hfinal⟩

/-- **What a successful write of some fields did**: the checks let them pass, and the mark and
the columns of these fields have the new cells. -/
theorem appendExpiring_ok (hnodup : (maps.places t.schema.fields.keys).Nodup) {id? : Option String}
    {fresh : String} {fields : List (String × Value)} {expiry : Int64} {r : Record} {s' : σ}
    (hintact : ∀ f ∈ t.schema.fields.keys,
      (maps.cells m now (id?.getD fresh)).garbled f = false)
    (happend : t.appendExpiring now id? fresh fields expiry s = (.ok r, s'))
    (h : v.Has sound now s m) :
    r = Record.ofFields (id?.getD fresh) fields ∧ t.schema.checkAll r.fields.toList = .ok () ∧
      v.Has sound now s' (maps.appended r expiry m) := by
  have hrun := happend
  rw [appendExpiring_eq] at hrun
  obtain ⟨⟨⟩, s₁, hid, hrun⟩ := Action.exists_of_bind_ok hrun
  obtain ⟨⟨⟩, s₂, hcheck, -⟩ := Action.exists_of_bind_ok hrun
  obtain ⟨hid, -⟩ := Prod.mk.inj hid
  obtain ⟨hallowed, -⟩ := Prod.mk.inj hcheck
  obtain ⟨u, hu, hhas⟩ := appendExpiring_done hv ht hnodup expiry hid hallowed hintact h
  obtain ⟨hr, rfl⟩ := Prod.mk.inj (happend.symm.trans hu)
  obtain rfl := Except.ok.inj hr
  exact ⟨rfl, hallowed, hhas⟩

/-- Where no cell is garbled every query is answered. -/
theorem query_intact (h : v.Has sound now s m)
    (hintact : ∀ id, ∀ f ∈ t.schema.fields.keys, (maps.cells m now id).garbled f = false)
    (q : Query) : ∃ records u, t.query now q s = (.ok records, u) := by
  obtain ⟨l, hl⟩ := exists_listing hv ht h
  obtain ⟨u, hu, -⟩ := look_shows hv ht hl hintact h (.query q)
  exact ⟨_, u, hu⟩

/-- **What a table accepts it can read back, just if its values are read back.**  After a
successful write of some fields, and before their expiry has passed, a get answers with the
record that has these fields with the last values supplied for them and the others as they
were, and the whole table can still be queried, just if every one of these values is exact. -/
theorem append_readable_iff (hnodup : (maps.places t.schema.fields.keys).Nodup)
    {id? : Option String} {fresh : String} {fields : List (String × Value)} {expiry : Int64}
    {r : Record} {s' : σ} (h : v.Has sound now s m)
    (hintact : ∀ id, ∀ f ∈ t.schema.fields.keys, (maps.cells m now id).garbled f = false)
    (happend : t.appendExpiring now id? fresh fields expiry s = (.ok r, s')) {later : Int64}
    (hle : now ≤ later) (hlive : isExpired expiry later = false) :
    ∃ before? : Option Record, (t.get later (id?.getD fresh) s).1 = .ok before? ∧
      ((∃ record records, (t.get later (id?.getD fresh) s').1 = .ok (some record) ∧
          (∀ f, record.fields.get? f =
            (lastSupplied fields f).or (before?.bind fun before => before.fields.get? f)) ∧
          (t.query later .all s').1 = .ok records) ↔
        ∀ f value, lastSupplied fields f = some value → value.Exact) := by
  obtain ⟨rfl, hallowed, hafter⟩ := appendExpiring_ok hv ht hnodup (hintact _) happend h
  have hdeclared := Schema.declared_of_checkAll hallowed
  have hsupplied := Record.get?_ofFields (id?.getD fresh) fields
  have hstored : ∀ f value, lastSupplied fields f = some value →
      (Stored.ofBytes? (Stored.bytes value) = some value ↔ value.Exact) := fun f value hvalue =>
    Schema.stored_iff_exact hallowed hvalue
  have hid := Record.id_ofFields (id?.getD fresh) fields
  generalize Record.ofFields (id?.getD fresh) fields = r at hafter hdeclared hid hsupplied
  rw [← hid]
  -- The table is looked at later, when cells that were there before may have expired.
  have hlater : v.Has sound later s m := h.later hle
  have hold : ∀ id, ∀ f ∈ t.schema.fields.keys, (maps.cells m later id).garbled f = false := by
    intro id f hf
    rw [Maps.cells_later hle]
    exact Cells.garbled_later (hintact id f hf) later
  obtain ⟨u, hu, -⟩ := get_intact hv ht hlater (hold r.id)
  refine ⟨_, congrArg Prod.fst hu, ?_⟩
  simp only [Cells.get?_seen]
  replace hafter := hafter.later hle
  have hwritten : ∀ f value, lastSupplied fields f = some value → f ∈ t.schema.fields.keys := by
    intro f value hvalue
    rw [← hsupplied] at hvalue
    exact hdeclared f ((Dictionary.mem_keys_iff r.fields f).2 ⟨value, hvalue⟩)
  constructor
  · rintro ⟨record, records, hget, hfields, -⟩ f value hvalue
    have hf := hwritten f value hvalue
    have hread := get?_of_get hv ht hafter hget hf
    rw [hfields f, Maps.field?_appended hnodup hdeclared hlive hf, hsupplied, hvalue] at hread
    exact (hstored f value hvalue).1 hread.symm
  · intro hexact
    have hintact' := Maps.intact_appended hnodup hdeclared hlive hold fun f value hvalue => by
      rw [hsupplied] at hvalue
      exact (hstored f value hvalue).2 (hexact f value hvalue)
    obtain ⟨w, hw, -⟩ := get_intact hv ht hafter (hintact' r.id)
    obtain ⟨records, x, hquery⟩ := query_intact hv ht hafter hintact' .all
    rw [if_pos (Maps.occupied_appended hnodup hdeclared hlive)] at hw
    refine ⟨_, records, congrArg Prod.fst hw, fun f => ?_, congrArg Prod.fst hquery⟩
    rw [Cells.get?_record]
    by_cases hf : f ∈ t.schema.fields.keys
    · rw [if_pos hf, if_pos hf, Maps.field?_appended hnodup hdeclared hlive hf, hsupplied]
      cases hvalue : lastSupplied fields f with
      | none => rfl
      | some value => exact (hstored f value hvalue).2 (hexact f value hvalue)
    · have hnone : lastSupplied fields f = none := by
        cases hvalue : lastSupplied fields f with
        | none => rfl
        | some value => exact absurd (hwritten f value hvalue) hf
      rw [if_neg hf, if_neg hf, hnone]
      rfl

omit hv ht

/-- Goods have a price and a text. -/
def goods : Layout Nat Site.MapId :=
  .named (.ofFields "goods" [("price", .float), ("str_val", .text)] (by decide +kernel)) 0
    (fun number => "volume " ++ toString number) Prod.mk Prod.mk.inj

/-- A good. -/
def priceless : List (String × Value) := [("price", .float (.infinity false))]

/-- An infinite price is accepted, and neither the good nor the table can be read as they
should. -/
theorem append_readable_iff_priceless :
    ∃ r s', (goods.table Layout.memoryVault.backend 0).appendExpiring 0 (some "r") "" priceless 0
        untouched = (.ok r, s') ∧
      ¬∃ record records,
        ((goods.table Layout.memoryVault.backend 0).get 0 "r" s').1 = .ok (some record) ∧
        (∀ f, record.fields.get? f = lastSupplied priceless f) ∧
        ((goods.table Layout.memoryVault.backend 0).query 0 .all s').1 = .ok records := by
  obtain ⟨r, s', happend⟩ : ∃ r s', (goods.table Layout.memoryVault.backend 0).appendExpiring 0
      (some "r") "" priceless 0 untouched = (.ok r, s') := ⟨_, _, rfl⟩
  obtain ⟨before?, hbefore, hiff⟩ := append_readable_iff (Site.vault_reliable _ _)
    (goods.table_laidOn Layout.memoryVault.backend 0) (goods.separate 0) untouched_has
    (fun _ _ _ => rfl) happend (Int64.le_refl 0) rfl
  have hnothing : ((goods.table Layout.memoryVault.backend 0).get 0 "r" untouched).1 = .ok none :=
    rfl
  obtain rfl : before? = none := Except.ok.inj (hbefore.symm.trans hnothing)
  refine ⟨r, s', happend, fun hread => ?_⟩
  simp only [Option.bind_none, Option.or_none] at hiff
  have hexact := hiff.1 hread "price" (.float (.infinity false)) (by decide)
  exact absurd (hexact _ rfl).1 (by decide)

end Table

end LayeredStore
