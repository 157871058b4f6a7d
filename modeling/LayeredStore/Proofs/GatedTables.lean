import LayeredStore.Proofs.Agreement
import LayeredStore.Proofs.OneMap

/-! # Tables behind gates

The layers of a stack of tables may refuse any request, as long as they do so without
effect: `Layout.gatedStack` has a gate in front of every layer and of every map that
queries are answered from, and is one of tiers still (`Layout.gatedTiers`).

A record need not fit the tables to be written.  Fields under names that no column has are
passed over, and an empty identifier is refused by every layer, so what a store leaves is
the record with its declared fields, or nothing (`Layout.gatedTiers_stores`).
-/
namespace LayeredStore

open ExpiringMap

/-! ### Records that are not in their normal form -/

/-- The record with its fields under some names. -/
def Record.only (r : Record) (names : List String) : Record :=
  { r with fields := r.fields.filter fun name _ => decide (name ∈ names) }

theorem Record.get?_only (r : Record) (names : List String) (name : String) :
    (r.only names).fields.get? name = if name ∈ names then r.fields.get? name else none := by
  rw [Record.only, Dictionary.get?_filter]
  cases r.fields.get? name with
  | none => simp
  | some value => simp [Option.filter_some]

namespace Table

variable {σ : Type} {now : Int64} {names : List String}

/-- Columns are written from the fields of their names. -/
theorem replaceFields_only (r : Record) (expiry : Int64) {columns : List (String × Backend σ)}
    (h : ∀ c ∈ columns, c.1 ∈ names) :
    replaceFields now (r.only names) expiry columns = replaceFields now r expiry columns := by
  induction columns with
  | nil => rfl
  | cons c rest ih =>
    obtain ⟨name, b⟩ := c
    have hname : name ∈ names := h _ List.mem_cons_self
    have hrest := ih fun d hd => h d (List.mem_cons_of_mem _ hd)
    rw [replaceFields, replaceFields, Record.get?_only, if_pos hname, hrest]
    rfl

theorem put_only {t : Table σ} (r : Record) (expiry : Int64)
    (h : ∀ c ∈ t.columns.toList, c.1 ∈ names)
    (hcheck : t.schema.checkAll r.fields.toList = .ok ()) :
    t.put now (r.only names) expiry = t.put now r expiry := by
  have honly : t.schema.checkAll (r.only names).fields.toList = .ok () := by
    rw [Schema.checkAll_eq_ok_iff] at hcheck ⊢
    intro field hfield
    exact hcheck field (List.mem_filter.1 hfield).1
  unfold put
  rw [replaceFields_only r expiry h, honly, hcheck]
  rfl

end Table

namespace Layout

variable {σ κ ι : Type} (L : Layout κ ι)

/-- A record that the checks in front of a write let pass, with values that are read back. -/
structure Storable (r : Record) : Prop where
  /-- The schema allows its fields. -/
  check : L.schema.checkAll r.fields.toList = .ok ()
  /-- Its values are read back. -/
  reads : ∀ f value, r.fields.get? f = some value → value.ReadsBack Stored.nesting

variable {L}

/-- Exact values that are let pass are read back. -/
theorem Storable.of_exact {r : Record} (hcheck : L.schema.checkAll r.fields.toList = .ok ())
    (hexact : ∀ f value, r.fields.get? f = some value → value.Exact) : L.Storable r where
  check := hcheck
  reads f value hvalue := by
    have hfield := Schema.checkAll_eq_ok_iff.1 hcheck (f, value)
      ((Dictionary.get?_eq_some_iff r.fields f value).1 hvalue)
    exact Schema.readsBack_of_check hfield (hexact f value hvalue)

/-- What fits can be written, and so can a blank record. -/
theorem Fits.storable {id : String} {r : Record} (h : L.Fits id r) : L.Storable r :=
  ⟨h.allows.fields, h.reads⟩

theorem storable_blank (id : String) : L.Storable (.blank id) := ⟨rfl, nofun⟩

theorem Storable.merge {r patch : Record} (h : L.Storable r) (hpatch : L.Storable patch) :
    L.Storable (r.merge patch) := by
  refine ⟨Schema.checkAll_merge h.check hpatch.check, fun f value hvalue => ?_⟩
  rcases Record.get?_merge_cases hvalue with hold | hnew
  · exact h.reads f value hold
  · exact hpatch.reads f value hnew

/-- The declared fields of a record that can be written fit. -/
theorem Storable.fits_only {r : Record} (h : L.Storable r)
    (hid : L.schema.checkId r.id = .ok ()) : L.Fits r.id (r.only L.fields) := by
  have hsame : ∀ f value, (r.only L.fields).fields.get? f = some value →
      f ∈ L.fields ∧ r.fields.get? f = some value := by
    intro f value hvalue
    rw [Record.get?_only] at hvalue
    split at hvalue
    · next hf => exact ⟨hf, hvalue⟩
    · cases hvalue
  refine ⟨rfl, ⟨hid, Schema.checkAll_eq_ok_iff.2 fun field hfield => ?_⟩, fun f value hvalue => ?_,
    fun f value hvalue => ?_⟩
  · exact Schema.checkAll_eq_ok_iff.1 h.check field (List.mem_filter.1 hfield).1
  · exact (hsame f value hvalue).1
  · exact h.reads f value (hsame f value hvalue).2

end Layout

/-! ### Gates -/

/-- Gates in front of layers of records, and of the maps below.  What they do to the state
does not show in the maps. -/
structure Vault.Gates {σ ι : Type} [PolicyKeeper σ] (v : Vault σ ι) (sound : σ → Prop)
    (κ : Type) where
  /-- Whether a layer refuses a request. -/
  layer : κ → LayerRequest Record → Int64 → σ → Option StoreError × σ
  /-- Whether a map refuses a request. -/
  map : ι → Request → σ → Option StorageFailure × σ
  /-- The gates of layers leave the maps alone. -/
  layer_has : ∀ {now s m} k r time, v.Has sound now s m → v.Has sound now (layer k r time s).2 m
  /-- So do those of maps. -/
  map_has : ∀ {now s m} i r, v.Has sound now s m → v.Has sound now (map i r s).2 m

/-- A request that only looks. -/
def Request.Looks : Request → Prop
  | .get _ | .keys _ | .expiry _ => True
  | .put _ _ _ | .remove _ | .setExpiry _ _ | .upkeep _ => False

namespace Layout

variable {σ κ ι : Type} [PolicyKeeper σ] [DecidableEq ι] [DecidableEq κ] {L : Layout κ ι}
  {v : Vault σ ι} {sound : σ → Prop} {now : Int64} {s : σ}

/-- The tables as a stack of layers behind gates; the table that answers queries is behind
gates as well. -/
def gatedStack (L : Layout κ ι) (g : v.Gates sound κ) (ks : List κ) (answering : κ)
    (ticket : Nat) : TableStack σ :=
  ⟨L.schema, ks.map (L.table v.backend),
    ⟨L.schema.table, ks.map fun k => (L.table v.backend k).layer.guarded (g.layer k), L.lifespan,
      ticket⟩,
    L.table (fun i => (v.backend i).guarded (g.map i)) answering⟩

variable (hv : v.Reliable sound) (g : v.Gates sound κ)

/-- **Tables behind gates are tiers of records.** -/
def gatedTiers (L : Layout κ ι) : Tiers σ Record κ :=
  (tiers hv L).guarded g.layer fun k r time _ _ _ ⟨raw, hraw, hmeans⟩ =>
    ⟨raw, g.layer_has k r time hraw, hmeans⟩

/-- **A store leaves the declared fields of a record.** -/
theorem gatedTiers_stores {r : Record} (hr : L.Storable r) (expiry : Int64) :
    (gatedTiers hv g L).Stores now r.id r expiry (r.only L.fields) := by
  intro k s m h
  have hgate : L.Holds v sound now (g.layer k (.store r.id r expiry) now s).2 m := by
    obtain ⟨raw, hraw, hmeans⟩ := h
    exact ⟨raw, g.layer_has _ _ _ hraw, hmeans⟩
  refine Outcome.gated hgate fun t ht => ?_
  have hschema : (L.table v.backend k).schema = L.schema := rfl
  show Outcome _ _ _ _ ((L.table v.backend k).put now r expiry t)
  cases hid : L.schema.checkId r.id with
  | error e =>
    -- Every layer refuses an empty identifier.
    have hnot : ¬(L.table v.backend k).schema.Allows r := by
      intro hallows
      rw [hschema] at hallows
      cases hid.symm.trans hallows.id
    have herror : ∃ e, (L.table v.backend k).put now r expiry t = (.error e, t) :=
      Table.put_not_allowed expiry hnot
    obtain ⟨e', herror⟩ := herror
    rw [herror]
    exact ht
  | ok _ =>
    have hcolumns : ∀ c ∈ (L.table v.backend k).columns.toList, c.1 ∈ L.fields := by
      intro c hc
      rw [(L.table_laidOn v.backend k).columns] at hc
      obtain ⟨f, hf, rfl⟩ := List.mem_map.1 hc
      exact hf
    have hfits := hr.fits_only hid
    have hstore := (tiers hv L).store k r.id (r.only L.fields) expiry ht hfits
    have hput : (L.table v.backend k).put now (r.only L.fields) expiry =
        (L.table v.backend k).put now r expiry := Table.put_only r expiry hcolumns hr.check
    rw [← hput]
    exact hstore

/-! ### Queries -/

include hv

omit [DecidableEq κ] in
/-- Behind a gate as well, looking changes no map. -/
theorem looks_keep {raw : ι → ExpiringMap Bytes} (i : ι) :
    ((v.backend i).guarded (g.map i)).KeepsOn now Request.Looks (v.Has sound now · raw) := by
  intro r hlooks s hs
  have hgate := g.map_has i r hs
  have hafter : (raw i).after now r = raw i := by
    cases r with
    | get _ | keys _ | expiry _ => rfl
    | put _ _ _ | remove _ | setExpiry _ _ | upkeep _ => cases hlooks
  show v.Has sound now (((v.backend i).guarded (g.map i)).perform r now s).2 raw
  simp only [Backend.guarded]
  generalize g.map i r s = gated at hgate ⊢
  obtain ⟨_ | failure, t⟩ := gated
  · obtain ⟨a, u, hok, -, hu⟩ := hv.perform hgate i r
    rw [hafter, Function.update_eq_self] at hu
    simp only [hok]
    exact hu
  · exact hgate

omit [DecidableEq κ] in
/-- The maps of the table that answers queries are not changed by looking. -/
theorem maps_keep {raw : ι → ExpiringMap Bytes} (k : κ) :
    ∀ b ∈ (L.table (fun i => (v.backend i).guarded (g.map i)) k).maps,
      b.KeepsOn now Request.Looks (v.Has sound now · raw) := by
  intro b hb
  rw [table_maps] at hb
  obtain ⟨i, -, rfl⟩ := List.mem_map.1 hb
  exact looks_keep hv g i

/-- What changes no map leaves layers as settled as they were. -/
theorem settled_of_keeps {ks : List κ} {id : String} {settled : Bool} {α : Type}
    {x : Action σ StoreError α} (hx : ∀ raw, x.Keeps (v.Has sound now · raw)) :
    x.Keeps ((gatedTiers hv g L).Settled now ks id settled) := by
  rintro s ⟨m, ⟨raw, hraw, hmeans⟩, hagree⟩
  exact ⟨m, ⟨raw, hx raw s hraw, hmeans⟩, hagree⟩

end Layout

end LayeredStore
