import LayeredStore.Proofs.TableWrites
import LayeredStore.TableStack
import Mathlib.Data.List.Nodup

/-! # Tables side by side

A stack of tables keeps the maps of every table apart (`Layout`), so what one table writes
reaches no map of another (`Table.Maps.put_of_notMem`).  What it does to its own cells is a
function of these cells (`Table.Cells.put`): that is all that is needed to tell what a table
answers after a put, complete or not.
-/
namespace LayeredStore

open ExpiringMap

/-- What has been entered in ascending order stands as it is. -/
theorem Dictionary.toList_ofList {κ α : Type} [Ord κ] [Std.TransOrd κ] [Std.LawfulEqOrd κ]
    {pairs : List (κ × α)} (h : pairs.Pairwise fun a b => compare a.1 b.1 = .lt) :
    (ofList pairs).toList = pairs := by
  have heq : ofList pairs = ⟨pairs, h⟩ :=
    ofList_eq (nodup_keys ⟨pairs, h⟩) fun key value => (get?_eq_some_iff ⟨pairs, h⟩ key value).symm
  rw [heq, toList]

/-- Values that some keys are given stand under these keys. -/
theorem Dictionary.get?_ofList_filterMap {κ α : Type} [Ord κ] [Std.TransOrd κ] [Std.LawfulEqOrd κ]
    [DecidableEq κ] (given : κ → Option α) (keys : List κ) (key : κ) :
    (ofList (keys.filterMap fun k => (given k).map (k, ·))).get? key =
      if key ∈ keys then given key else none := by
  have hinsert : ∀ d : Dictionary κ α,
      (d.insertAll (keys.filterMap fun k => (given k).map (k, ·))).get? key =
        if key ∈ keys then (given key).or (d.get? key) else d.get? key := by
    induction keys with
    | nil => exact fun _ => rfl
    | cons k rest ih =>
      intro d
      rw [List.filterMap_cons]
      by_cases hk : key = k
      · subst hk
        -- Whether the key comes again further down or not, it is given the same value.
        cases hgiven : given key with
        | none => simp [ih, hgiven]
        | some value => simp [insertAll_cons, ih, hgiven]
      · cases hgiven : given k with
        | none => simp [ih, hk]
        | some value => simp [insertAll_cons, ih, hk, get?_insert_of_ne d (Ne.symm hk)]
  rw [ofList, hinsert, get?_empty, Option.or_none]

/-- The entries of a dictionary, picked key by key. -/
theorem Dictionary.ofList_filterMap {κ α : Type} [Ord κ] [Std.TransOrd κ] [Std.LawfulEqOrd κ]
    [DecidableEq κ] {d : Dictionary κ α} {keys : List κ}
    (h : ∀ key value, d.get? key = some value → key ∈ keys) :
    ofList (keys.filterMap fun key => (d.get? key).map (key, ·)) = d := by
  refine ext_get? fun key => ?_
  rw [get?_ofList_filterMap]
  cases hvalue : d.get? key with
  | none => simp
  | some value => rw [if_pos (h key value hvalue)]

namespace Table

/-! ### Cells of one table -/

namespace Cells

/-- Cells that are the stored forms of values, with one expiry, make up these values. -/
theorem gather_values {c : Cells} {d : String → Option Value} {expiry : Int64}
    {fields : List String}
    (hcolumn : ∀ f ∈ fields, c.column f = (d f).map fun value => (Stored.bytes value, expiry))
    (hreads : ∀ f ∈ fields, ∀ value ∈ d f, value.ReadsBack Stored.nesting) :
    c.gather fields expiry = some (fields.filterMap fun f => (d f).map (f, ·), expiry) := by
  induction fields with
  | nil => rfl
  | cons f rest ih =>
    have hrest := ih (fun g hg => hcolumn g (List.mem_cons_of_mem f hg))
      fun g hg => hreads g (List.mem_cons_of_mem f hg)
    rw [gather, hcolumn f List.mem_cons_self, List.filterMap_cons]
    cases hd : d f with
    | none => exact hrest
    | some value =>
      have hread := Stored.ofBytes?_value (hreads f List.mem_cons_self value hd)
      simp only [Option.map_some, hread, Option.bind_some, earliest_self, hrest]

/-- A marked identifier whose cells are the stored forms of a dictionary has that record. -/
theorem view_values {c : Cells} {d : Fields} {bytes : Bytes} {expiry : Int64}
    {fields : List String} (hmark : c.mark? = some (bytes, expiry))
    (hcolumn : ∀ f ∈ fields, c.column f = (d.get? f).map fun value => (Stored.bytes value, expiry))
    (hfields : ∀ f value, d.get? f = some value → f ∈ fields)
    (hreads : ∀ f value, d.get? f = some value → value.ReadsBack Stored.nesting) (id : String) :
    c.view fields id = some (some (⟨id, d⟩, expiry)) := by
  have hexpiry : c.markExpiry = expiry := by rw [markExpiry, hmark]
  rw [view, hexpiry, gather_values hcolumn fun f _ value hvalue => hreads f value hvalue,
    Option.map_some, hmark]
  dsimp only
  rw [Dictionary.ofList_filterMap hfields]
  rfl

/-- An identifier without cells has no record. -/
theorem view_none {c : Cells} {fields : List String} (hmark : c.mark? = none)
    (hcolumn : ∀ f ∈ fields, c.column f = none) (id : String) :
    c.view fields id = some none := by
  have hgather : ∀ soonest, c.gather fields soonest = some ([], soonest) := by
    intro soonest
    induction fields with
    | nil => rfl
    | cons f rest ih =>
      rw [gather, hcolumn f List.mem_cons_self]
      exact ih fun g hg => hcolumn g (List.mem_cons_of_mem f hg)
  rw [view, hgather, hmark]
  rfl

/-- Two identifiers have the same cells, as far as some fields are concerned. -/
structure Alike (fields : List String) (c d : Cells) : Prop where
  /-- The marks are equal. -/
  mark : c.mark? = d.mark?
  /-- The columns are equal. -/
  column : ∀ f ∈ fields, c.column f = d.column f

theorem gather_congr {fields : List String} {c d : Cells}
    (h : ∀ f ∈ fields, c.column f = d.column f) (soonest : Int64) :
    c.gather fields soonest = d.gather fields soonest := by
  induction fields generalizing soonest with
  | nil => rfl
  | cons f rest ih =>
    have hrest := ih fun g hg => h g (List.mem_cons_of_mem f hg)
    rw [gather, gather, h f List.mem_cons_self]
    simp only [hrest]

namespace Alike

variable {fields : List String} {c d e : Cells}

@[refl] theorem refl (fields : List String) (c : Cells) : Alike fields c c := ⟨rfl, fun _ _ => rfl⟩

theorem trans (h : Alike fields c d) (h' : Alike fields d e) : Alike fields c e :=
  ⟨h.mark.trans h'.mark, fun f hf => (h.column f hf).trans (h'.column f hf)⟩

/-- Cells that are alike make up one record. -/
theorem view (h : Alike fields c d) (id : String) : c.view fields id = d.view fields id := by
  unfold Cells.view markExpiry
  rw [h.mark, gather_congr h.column]

end Alike

/-- The cells after a put of a record that may be incomplete. -/
def put (c : Cells) (now : Int64) (refusedIndex : Bool) (refuses : String → Bool)
    (fields : List String) (record : Record) (expiry : Int64) : Cells :=
  if refusedIndex then c
  else
    ⟨some (indexMarker, expiry) |>.filter fun e => !isExpired e.2 now,
      fun f => if f ∈ reached refuses c.garbled fields
        then (record.cell expiry f).filter fun e => !isExpired e.2 now
        else c.column f⟩

/-- A put does to cells that are alike the same. -/
theorem Alike.put {fields : List String} {c d : Cells} (h : Alike fields c d) (now : Int64)
    (refusedIndex : Bool) (refuses : String → Bool) (record : Record) (expiry : Int64) :
    Alike fields (c.put now refusedIndex refuses fields record expiry)
      (d.put now refusedIndex refuses fields record expiry) := by
  have hgarbled : ∀ f ∈ fields, c.garbled f = d.garbled f := by
    intro f hf
    rw [garbled, garbled, h.column f hf]
  unfold Cells.put
  rw [reached_congr hgarbled]
  split
  · exact h
  · exact ⟨rfl, fun f hf => by simp only [h.column f hf]⟩

end Cells

section

variable {ι : Type} [DecidableEq ι] {maps : Maps ι} {fields : List String}
  {m m' : ι → ExpiringMap Bytes}

omit [DecidableEq ι] in
theorem Maps.cells_congr (h : ∀ i ∈ maps.places fields, m i = m' i) (now : Int64) (id : String) :
    Cells.Alike fields (maps.cells m now id) (maps.cells m' now id) where
  mark := by rw [cells, cells, h _ List.mem_cons_self]
  column f hf := by
    simp only [cells, h _ (List.mem_cons_of_mem _ (List.mem_map_of_mem hf))]

variable (refusal : ι → Option StorageFailure) (now : Int64) (record : Record) (expiry : Int64)

theorem Maps.put_of_notMem {i : ι} (hi : i ∉ maps.places fields) (m : ι → ExpiringMap Bytes) :
    maps.put refusal now fields record expiry m i = m i := by
  obtain ⟨hindex, hcolumns⟩ := not_or.1 (mt List.mem_cons.2 hi)
  unfold put
  split
  · rfl
  · have hsub := reached_sublist (maps.refuses refusal) (maps.cells m now record.id).garbled fields
    rw [Maps.write_of_notMem fun hmem => hcolumns ((hsub.map maps.column).subset hmem),
      Function.update_of_ne hindex]

/-- What a put makes of the cells of its identifier. -/
theorem Maps.cells_put (hnodup : (maps.places fields).Nodup) (m : ι → ExpiringMap Bytes) :
    Cells.Alike fields (maps.cells (maps.put refusal now fields record expiry m) now record.id)
      ((maps.cells m now record.id).put now (refusal maps.index).isSome (maps.refuses refusal)
        fields record expiry) := by
  obtain ⟨hindex, hcolumns⟩ := List.nodup_cons.1 hnodup
  unfold put Cells.put
  split
  · rfl
  have hsub := reached_sublist (maps.refuses refusal) (maps.cells m now record.id).garbled fields
  generalize reached _ _ fields = written at hsub ⊢
  have hnodup : (written.map maps.column).Nodup := hcolumns.sublist (hsub.map maps.column)
  have hmark : maps.index ∉ written.map maps.column := fun hmem =>
    hindex ((hsub.map maps.column).subset hmem)
  refine ⟨?_, fun f hf => ?_⟩
  · simp only [cells]
    rw [Maps.write_of_notMem hmark, Function.update_self, live?_set_self]
  · have hne : maps.column f ≠ maps.index := fun heq => hindex (heq ▸ List.mem_map_of_mem hf)
    simp only [cells]
    by_cases hreached : f ∈ written
    · rw [if_pos hreached, Maps.write_column hnodup hreached, Function.update_of_ne hne,
        live?_set_self]
    -- No two fields share a column, so a column that is written is that of a field reached.
    · have hcolumn : maps.column f ∉ written.map maps.column := by
        intro hmem
        obtain ⟨g, hg, heq⟩ := List.mem_map.1 hmem
        obtain rfl := List.inj_on_of_nodup_map hcolumns (hsub.subset hg) hf heq
        exact hreached hg
      rw [if_neg hreached, Maps.write_of_notMem hcolumn, Function.update_of_ne hne]

/-- A put leaves the cells of other identifiers alone. -/
theorem Maps.cells_put_of_ne {id : String} (hid : id ≠ record.id) (m : ι → ExpiringMap Bytes) :
    maps.cells (maps.put refusal now fields record expiry m) now id = maps.cells m now id := by
  have hsame : ∀ i, (maps.put refusal now fields record expiry m i).live? now id =
      (m i).live? now id := by
    intro i
    unfold put
    split
    · rfl
    · rw [Maps.live?_write_of_ne hid]
      by_cases hi : i = maps.index
      · subst hi
        rw [Function.update_self, live?_set_of_ne _ _ hid]
      · rw [Function.update_of_ne hi]
  simp only [cells, hsame]

end

end Table

/-- All maps of a table that is laid on a family of backends. -/
theorem Table.LaidOn.maps_eq {σ ι : Type} {t : Table σ} {b : ι → Backend σ} {maps : Table.Maps ι}
    (h : t.LaidOn b maps) : t.maps = (maps.places t.schema.fields.keys).map b := by
  have hcolumns : t.columns.values = (t.schema.fields.keys.map maps.column).map b := by
    show t.columns.toList.map Prod.snd = _
    rw [h.columns, List.map_map, List.map_map]
    rfl
  rw [Table.maps, h.index, hcolumns]
  rfl

/-! ### Several tables -/

/-- Tables of one schema, in maps of their own. -/
structure Layout (κ ι : Type) where
  /-- The schema of every table. -/
  schema : Schema
  /-- How long written values live. -/
  lifespan : UInt64
  /-- The name of a table in failure reports. -/
  label : κ → String
  /-- The maps of a table. -/
  maps : κ → Table.Maps ι
  /-- A table has as many maps as it needs. -/
  separate : ∀ k, ((maps k).places schema.fields.keys).Nodup
  /-- Two tables share no map. -/
  apart : ∀ {k l}, k ≠ l → ∀ i ∈ (maps k).places schema.fields.keys,
    i ∉ (maps l).places schema.fields.keys

/-- The maps of a table have different names. -/
theorem mapName_inj {table a b : String} (h : mapName table a = mapName table b) : a = b :=
  (String.append_right_inj _).1 h

namespace Layout

variable {σ κ ι : Type}

/-- Tables on stores whose maps go by their names. -/
def named (schema : Schema) (lifespan : UInt64) (label : κ → String) (place : κ → String → ι)
    (hplace : ∀ {k l a b}, place k a = place l b → k = l ∧ a = b) : Layout κ ι where
  schema := schema
  lifespan := lifespan
  label := label
  maps k := ⟨place k (mapName schema.table idField), fun f => place k (mapName schema.table f)⟩
  separate k := by
    refine List.nodup_cons.2 ⟨fun hmem => ?_, ?_⟩
    · obtain ⟨f, hf, heq⟩ := List.mem_map.1 hmem
      exact schema.reserved (mapName_inj (hplace heq).2 ▸ hf)
    · exact (Dictionary.nodup_keys schema.fields).map fun a b heq => mapName_inj (hplace heq).2
  apart {k l} hkl i hk hl := by
    have hname : ∀ (j : κ) (i : ι), i ∈ Table.Maps.places ⟨place j (mapName schema.table idField),
        fun f => place j (mapName schema.table f)⟩ schema.fields.keys → ∃ name, i = place j name := by
      intro j i hi
      rcases List.mem_cons.1 hi with rfl | hi
      · exact ⟨_, rfl⟩
      · obtain ⟨f, -, rfl⟩ := List.mem_map.1 hi
        exact ⟨_, rfl⟩
    obtain ⟨a, ha⟩ := hname k i hk
    obtain ⟨b, hb⟩ := hname l i hl
    exact hkl (hplace (ha.symm.trans hb)).1

variable (L : Layout κ ι)

/-- The declared fields. -/
def fields : List String := L.schema.fields.keys

/-- The cells of an identifier in a table. -/
def cells (m : ι → ExpiringMap Bytes) (now : Int64) (id : String) (k : κ) : Table.Cells :=
  (L.maps k).cells m now id

/-- A table over the maps of a family of backends. -/
def table (b : ι → Backend σ) (k : κ) : Table σ :=
  ⟨L.label k, L.schema, b (L.maps k).index,
    .ofList (L.schema.fields.keys.map fun f => (f, b ((L.maps k).column f))), L.lifespan⟩

/-- Tables over the maps of a family of backends, as layers. -/
def layers (b : ι → Backend σ) (ks : List κ) : List (Layer σ Record) :=
  ks.map fun k => (L.table b k).layer

/-- The tables as a stack, one of which answers queries. -/
def stack (b : ι → Backend σ) (ks : List κ) (answering : κ) (ticket : Nat) : TableStack σ :=
  ⟨L.schema, ks.map (L.table b), ⟨L.schema.table, L.layers b ks, L.lifespan, ticket⟩,
    L.table b answering⟩

theorem table_laidOn (b : ι → Backend σ) (k : κ) : (L.table b k).LaidOn b (L.maps k) where
  index := rfl
  columns := by
    refine Dictionary.toList_ofList (List.pairwise_map.2 ?_)
    exact List.pairwise_map.2 L.schema.fields.ascending

/-- A table over a vault is one over the vault that refuses nothing. -/
theorem table_laidOn_vault [PolicyKeeper σ] (v : Vault σ ι) (k : κ) :
    (L.table v.backend k).LaidOn (v.refusing fun _ => none).backend (L.maps k) := by
  rw [v.backend_refusing_none]
  exact L.table_laidOn v.backend k

/-- All maps of a table. -/
theorem table_maps (b : ι → Backend σ) (k : κ) :
    (L.table b k).maps = ((L.maps k).places L.fields).map b :=
  (L.table_laidOn b k).maps_eq

variable {L} {m m' : ι → ExpiringMap Bytes} {now : Int64} {id : String}

/-- Maps that are equal at a table have the same cells there. -/
theorem cells_congr {k : κ} (h : ∀ i ∈ (L.maps k).places L.fields, m i = m' i) :
    Table.Cells.Alike L.fields (L.cells m now id k) (L.cells m' now id k) :=
  Table.Maps.cells_congr h now id

end Layout

end LayeredStore
