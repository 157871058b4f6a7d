import LayeredStore.Proofs.ReliableTiers
import LayeredStore.Proofs.TableLayout

/-! # Tables as expiring maps of records

While nothing fails and only records of the schema are stored, whole and under their own
identifiers, a table over a reliable vault means an expiring map of records: where a record
is live, the mark and the columns of its fields have its expiry, and elsewhere there are
no cells at all (`Layout.Means`).  So tables of one layout are tiers (`Layout.tiers`), and
no operation of theirs fails (`Layout.tiers_reliable`).
-/
namespace LayeredStore

open ExpiringMap

namespace Table

/-! ### Cells of a stored record -/

/-- The cells of a record that may be there. -/
def Cells.of (e? : Option (Record × Int64)) : Cells :=
  ⟨e?.map fun (_, expiry) => (indexMarker, expiry), fun f => e?.bind fun (r, expiry) => r.cell expiry f⟩

/-- Cells expire with their record. -/
theorem Cells.of_filter (e? : Option (Record × Int64)) (now : Int64) :
    Cells.of (e?.filter fun e => !isExpired e.2 now) =
      ⟨(Cells.of e?).mark?.filter fun e => !isExpired e.2 now,
        fun f => ((Cells.of e?).column f).filter fun e => !isExpired e.2 now⟩ := by
  rcases e? with _ | ⟨r, expiry⟩
  · rfl
  have hcell : ∀ f, (r.cell expiry f).filter (fun e => !isExpired e.2 now) =
      if isExpired expiry now then none else r.cell expiry f := by
    intro f
    rw [Record.cell]
    cases r.fields.get? f with
    | none => simp
    | some value => cases hdead : isExpired expiry now <;> simp [Option.filter_some, hdead]
  simp only [Cells.of, Option.map_some, Option.bind_some, hcell, Option.filter_some]
  cases isExpired expiry now <;> rfl

/-- Nothing stops a write where no column refuses and none is garbled. -/
theorem reached_eq_self {refuses garbled : String → Bool} {fields : List String}
    (h : ∀ f ∈ fields, refuses f = false ∧ garbled f = false) :
    reached refuses garbled fields = fields := by
  induction fields with
  | nil => rfl
  | cons f rest ih =>
    obtain ⟨hrefuses, hgarbled⟩ := h f List.mem_cons_self
    rw [reached, hrefuses, hgarbled, ih fun g hg => h g (List.mem_cons_of_mem f hg)]
    rfl

/-- After a put that nothing stops, the cells are those of the record. -/
theorem Maps.cells_put_whole {ι : Type} [DecidableEq ι] {maps : Maps ι} {fields : List String}
    (hnodup : (maps.places fields).Nodup) {now : Int64} {r : Record} {m : ι → ExpiringMap Bytes}
    (hintact : ∀ f ∈ fields, (maps.cells m now r.id).garbled f = false) (expiry : Int64) :
    Cells.Alike fields (maps.cells (maps.put (fun _ => none) now fields r expiry m) now r.id)
      (.of ((some (r, expiry)).filter fun e => !isExpired e.2 now)) := by
  have hreached : reached (maps.refuses fun _ => none) (maps.cells m now r.id).garbled fields =
      fields := reached_eq_self fun f hf => ⟨rfl, hintact f hf⟩
  refine (cells_put (fun _ => none) now r expiry hnodup m).trans ?_
  rw [Cells.of_filter]
  refine ⟨rfl, fun f hf => ?_⟩
  have hwritten : f ∈ reached (maps.refuses fun _ => none) (maps.cells m now r.id).garbled fields :=
    hreached.symm ▸ hf
  exact if_pos hwritten

end Table

namespace Layout

variable {σ κ ι : Type} (L : Layout κ ι)

/-- A record can be stored under an identifier and is read back as it is. -/
structure Fits (id : String) (r : Record) : Prop where
  /-- The identifier is its own. -/
  id : r.id = id
  /-- The schema allows it. -/
  allows : L.schema.Allows r
  /-- Its names are those of declared fields. -/
  declared : ∀ f value, r.fields.get? f = some value → f ∈ L.fields
  /-- Its values are read back. -/
  reads : ∀ f value, r.fields.get? f = some value → value.ReadsBack Stored.nesting

/-- What the maps of tables mean as maps of records. -/
structure Means (now : Int64) (raw : ι → ExpiringMap Bytes) (m : κ → ExpiringMap Record) :
    Prop where
  /-- The cells are those of the live records. -/
  cells : ∀ k id, Table.Cells.Alike L.fields (L.cells raw now id k) (.of ((m k).live? now id))
  /-- Live records fit. -/
  fits : ∀ k id e, (m k).live? now id = some e → L.Fits id e.1

variable {L} {now : Int64} {raw : ι → ExpiringMap Bytes} {m : κ → ExpiringMap Record}

/-- The cells of a record are read as that record. -/
theorem view_of {id : String} {e? : Option (Record × Int64)} (h : ∀ e ∈ e?, L.Fits id e.1) :
    (Table.Cells.of e?).view L.fields id = some e? := by
  rcases e? with _ | ⟨r, expiry⟩
  · exact Table.Cells.view_none rfl (fun _ _ => rfl) id
  · obtain ⟨rfl, -, hdeclared, hreads⟩ := h _ rfl
    exact Table.Cells.view_values rfl (fun f _ => rfl) hdeclared hreads r.id

namespace Means

theorem later {next : Int64} (h : L.Means now raw m) (hle : now ≤ next) : L.Means next raw m where
  cells k id := by
    have hcells := h.cells k id
    rw [live?_later hle, Table.Cells.of_filter]
    refine ⟨?_, fun f hf => ?_⟩
    · rw [← hcells.mark]
      exact live?_later hle _ _
    · simp only [← hcells.column f hf]
      exact live?_later hle _ _
  fits k id e he := by
    rw [live?_later hle] at he
    exact h.fits k id e (Option.filter_eq_some_iff.1 he).1

theorem view (h : L.Means now raw m) (id : String) (k : κ) :
    (L.cells raw now id k).view L.fields id = some ((m k).live? now id) := by
  rw [(h.cells k id).view, view_of fun e he => h.fits k id e he]

/-- No cell of a stored record is garbled. -/
theorem garbled (h : L.Means now raw m) (id : String) (k : κ) {f : String} (hf : f ∈ L.fields) :
    (L.cells raw now id k).garbled f = false := by
  rw [Table.Cells.garbled, (h.cells k id).column f hf]
  rcases hlive : (m k).live? now id with _ | ⟨r, expiry⟩
  · rfl
  · cases hvalue : r.fields.get? f with
    | none => simp [Table.Cells.of, Record.cell, hvalue, Table.Cells.value?]
    | some value =>
      have hread := Stored.ofBytes?_value ((h.fits k id _ hlive).reads f value hvalue)
      simp [Table.Cells.of, Record.cell, hvalue, Table.Cells.value?, hread]

/-- A record is live just when some map has a cell of it. -/
theorem any_live (h : L.Means now raw m) (id : String) (k : κ) :
    (((L.maps k).places L.fields).any fun i => ((raw i).live? now id).isSome) =
      ((m k).live? now id).isSome := by
  obtain ⟨hmark, hcolumn⟩ := h.cells k id
  rw [Table.Maps.places, List.any_cons, List.any_map]
  rcases hlive : (m k).live? now id with _ | ⟨r, expiry⟩
  · rw [hlive] at hmark hcolumn
    have hindex : ((raw (L.maps k).index).live? now id).isSome = false := congrArg Option.isSome hmark
    rw [hindex, Bool.false_or, Option.isSome_none, List.any_eq_false]
    refine fun f hf hsome => ?_
    have hnone : ((raw ((L.maps k).column f)).live? now id).isSome = false :=
      congrArg Option.isSome (hcolumn f hf)
    exact Bool.false_ne_true (hnone.symm.trans hsome)
  · rw [hlive] at hmark
    have hindex : ((raw (L.maps k).index).live? now id).isSome = true := congrArg Option.isSome hmark
    rw [hindex, Bool.true_or, Option.isSome_some]

/-- What the maps mean after a change in one table. -/
theorem update [DecidableEq κ] (h : L.Means now raw m) (k : κ) {raw' : ι → ExpiringMap Bytes}
    {x : ExpiringMap Record} (hothers : ∀ i ∉ (L.maps k).places L.fields, raw' i = raw i)
    (hcells : ∀ id, Table.Cells.Alike L.fields (L.cells raw' now id k) (.of (x.live? now id)))
    (hfits : ∀ id e, x.live? now id = some e → L.Fits id e.1) :
    L.Means now raw' (Function.update m k x) where
  cells l id := by
    by_cases hl : l = k
    · subst hl
      rw [Function.update_self]
      exact hcells id
    · rw [Function.update_of_ne hl]
      exact (cells_congr fun i hi => hothers i (L.apart hl i hi)).trans (h.cells l id)
  fits l id e he := by
    by_cases hl : l = k
    · subst hl
      rw [Function.update_self] at he
      exact hfits id e he
    · rw [Function.update_of_ne hl] at he
      exact h.fits l id e he

variable [DecidableEq ι] [DecidableEq κ]

/-- A put that nothing refuses stores the record. -/
theorem put (h : L.Means now raw m) (k : κ) {id : String} {r : Record} (hfits : L.Fits id r)
    (expiry : Int64) :
    L.Means now ((L.maps k).put (fun _ => none) now L.fields r expiry raw)
      (Function.update m k ((m k).set id (some (r, expiry)))) := by
  obtain rfl := hfits.id
  refine h.update k (fun i hi => Table.Maps.put_of_notMem _ now r expiry hi raw)
    (fun id => ?_) fun id e he => ?_
  · by_cases hid : id = r.id
    · subst hid
      rw [live?_set_self]
      exact Table.Maps.cells_put_whole (L.separate k) (fun f hf => h.garbled r.id k hf) expiry
    · rw [live?_set_of_ne _ _ hid]
      unfold Layout.cells
      rw [Table.Maps.cells_put_of_ne (fun _ => none) now r expiry hid raw]
      exact h.cells k id
  · rw [live?_set] at he
    split at he
    · next hid =>
      obtain ⟨heq, -⟩ := Option.filter_eq_some_iff.1 he
      obtain rfl := Option.some.inj heq
      exact hid ▸ hfits
    · exact h.fits k id e he

omit [DecidableEq κ] in
theorem cells_changedOn (f : ExpiringMap Bytes → ExpiringMap Bytes) (k : κ) (id : String) :
    Table.Cells.Alike L.fields
      (L.cells (changedOn f ((L.maps k).places L.fields) raw) now id k)
      ⟨(f (raw (L.maps k).index)).live? now id,
        fun g => (f (raw ((L.maps k).column g))).live? now id⟩ where
  mark := by
    simp only [Layout.cells, Table.Maps.cells, Table.Maps.places,
      changedOn_of_mem List.mem_cons_self]
  column g hg := by
    have hmem : (L.maps k).column g ∈ (L.maps k).places L.fields :=
      List.mem_cons_of_mem _ (List.mem_map_of_mem hg)
    simp only [Layout.cells, Table.Maps.cells, changedOn_of_mem hmem]

/-- A removal in all maps of a table removes the record. -/
theorem remove (h : L.Means now raw m) (k : κ) (id : String) :
    L.Means now (changedOn (·.set id none) ((L.maps k).places L.fields) raw)
      (Function.update m k ((m k).set id none)) := by
  refine h.update k (fun i hi => changedOn_of_notMem hi raw) (fun other => ?_) fun other e he => ?_
  · refine (cells_changedOn (·.set id none) k other).trans ?_
    by_cases hid : other = id
    · subst hid
      simp only [live?_set_self, Option.filter_none]
      rfl
    · simp only [live?_set_of_ne _ _ hid]
      exact h.cells k other
  · rw [live?_set] at he
    split at he
    · cases he
    · exact h.fits k other e he

/-- Upkeep of all maps of a table is upkeep of its records. -/
theorem upkeep (h : L.Means now raw m) (k : κ) (verb : Upkeep) :
    L.Means now (changedOn (·.afterUpkeep verb) ((L.maps k).places L.fields) raw)
      (Function.update m k ((m k).afterUpkeep verb)) := by
  refine h.update k (fun i hi => changedOn_of_notMem hi raw) (fun id => ?_) fun id e he => ?_
  · refine (cells_changedOn (·.afterUpkeep verb) k id).trans ?_
    cases verb with
    | setup | maintenance | incremental => exact h.cells k id
    | teardown | clear => exact ⟨rfl, fun f hf => rfl⟩
  · cases verb with
    | setup | maintenance | incremental => exact h.fits k id e he
    | teardown | clear => cases he

end Means

/-! ### Operations of tables -/

section

variable [PolicyKeeper σ] [DecidableEq ι] [DecidableEq κ] {v : Vault σ ι} {sound : σ → Prop}
  {s : σ}

/-- The tables of a state mean these maps of records. -/
def Holds (L : Layout κ ι) (v : Vault σ ι) (sound : σ → Prop) (now : Int64) (s : σ)
    (m : κ → ExpiringMap Record) : Prop :=
  ∃ raw, v.Has sound now s raw ∧ L.Means now raw m

omit [DecidableEq ι] [DecidableEq κ] in
theorem Holds.later {now next : Int64} {m : κ → ExpiringMap Record}
    (h : L.Holds v sound now s m) (hle : now ≤ next) : L.Holds v sound next s m := by
  obtain ⟨raw, hraw, hmeans⟩ := h
  exact ⟨raw, hraw.later hle, hmeans.later hle⟩

variable (hv : v.Reliable sound)
include hv

omit [DecidableEq κ] in
/-- A fetch finds the live record. -/
theorem fetch_ok (h : L.Holds v sound now s m) (k : κ) (id : String) :
    ∃ t, (L.table v.backend k).layer.fetch now id s = (.ok ((m k).live? now id), t) ∧
      L.Holds v sound now t m := by
  obtain ⟨raw, hraw, hmeans⟩ := h
  have hfetch := Table.getWithExpiry_yields hv (fun _ => none) (L.table_laidOn_vault v k) hraw id
  have hview : (L.cells raw now id k).view L.fields id = some ((m k).live? now id) :=
    hmeans.view id k
  obtain ⟨t, ht, hholds⟩ := (hview ▸ hfetch : Yields _ _ (some ((m k).live? now id))).ok
  exact ⟨t, ht, raw, hholds, hmeans⟩

/-- A store replaces the record. -/
theorem store_ok (h : L.Holds v sound now s m) (k : κ) {id : String} {r : Record}
    (hfits : L.Fits id r) (expiry : Int64) :
    ∃ t, (L.table v.backend k).layer.store now id r expiry s = (.ok (), t) ∧
      L.Holds v sound now t (Function.update m k ((m k).set id (some (r, expiry)))) := by
  obtain ⟨raw, hraw, hmeans⟩ := h
  have hstop : ((none : Option StorageFailure).isSome || L.fields.any fun f =>
      (L.maps k).refuses (fun _ => none) f || ((L.maps k).cells raw now r.id).garbled f) = false := by
    rw [Bool.or_eq_false_iff, List.any_eq_false]
    refine ⟨rfl, fun f hf => ?_⟩
    have hgarbled : ((L.maps k).cells raw now r.id).garbled f = false := hmeans.garbled r.id k hf
    rw [hgarbled]
    exact Bool.false_ne_true
  have hput := Table.put_yields hv (fun _ => none) (L.table_laidOn_vault v k) (L.separate k)
    hfits.allows expiry hraw
  obtain ⟨t, ht, hholds⟩ := (hstop ▸ hput : Yields _ _ (some ())).ok
  refine ⟨t, ?_, _, hholds, hmeans.put k hfits expiry⟩
  have hrecord : { r with id } = r := by
    rw [← hfits.id]
  show (L.table v.backend k).put now { r with id } expiry s = _
  rw [hrecord, ht]

/-- A discard deletes the record and tells whether there was one. -/
theorem discard_ok (h : L.Holds v sound now s m) (k : κ) (id : String) :
    ∃ t, (L.table v.backend k).layer.discard now id s = (.ok ((m k).live? now id).isSome, t) ∧
      L.Holds v sound now t (Function.update m k ((m k).set id none)) := by
  obtain ⟨raw, hraw, hmeans⟩ := h
  have hplaces : ((L.maps k).places L.fields).Nodup := L.separate k
  obtain ⟨t, ht, hholds⟩ := fanOut_all "remove" Backend.name
    (fun b => (b.remove now id).mapError StoreError.storage) v.backend
    (fun x => (x.live? now id).map Prod.fst) (·.set id none) (fun i s m hs => by
      obtain ⟨a, u, hok, hanswer, hu⟩ := hv.perform hs i (.remove id)
      obtain rfl : a = ((m i).live? now id).map Prod.fst := hanswer
      exact ⟨u, Action.mapError_ok hok _, hu⟩) hplaces hraw
  refine ⟨t, ?_, _, hholds, hmeans.remove k id⟩
  show (L.table v.backend k).remove now id s = _
  unfold Table.remove
  rw [table_maps]
  rw [Action.bind_ok ht, List.any_map]
  simp only [Function.comp_def, Option.isSome_map, hmeans.any_live]
  rfl

theorem upkeep_ok (h : L.Holds v sound now s m) (k : κ) (verb : Upkeep) :
    ∃ t, (L.table v.backend k).layer.upkeep verb now s = (.ok (), t) ∧
      L.Holds v sound now t (Function.update m k ((m k).afterUpkeep verb)) := by
  obtain ⟨raw, hraw, hmeans⟩ := h
  have hplaces : ((L.maps k).places L.fields).Nodup := L.separate k
  obtain ⟨t, ht, hholds⟩ := fanOut_all verb.name Member.label (fun b => b.upkeep verb now)
    (Member.ofBackend ∘ v.backend) (fun _ => ()) (·.afterUpkeep verb) (fun i s m hs => by
      obtain ⟨⟨⟩, u, hok, -, hu⟩ := hv.perform hs i (.upkeep verb)
      exact ⟨u, Action.mapError_ok hok _, hu⟩) hplaces hraw
  refine ⟨t, ?_, _, hholds, hmeans.upkeep k verb⟩
  show (L.table v.backend k).upkeep now verb s = _
  unfold Table.upkeep Member.upkeepAll
  rw [table_maps, List.map_map]
  exact Action.bind_ok ht _

/-! ### Tables as tiers -/

/-- **Tables of one layout are tiers of records.** -/
def tiers (L : Layout κ ι) : Tiers σ Record κ where
  layer k := (L.table v.backend k).layer
  Holds := L.Holds v sound
  Fits := L.Fits
  later h hle := h.later hle
  fits := fun ⟨_, _, hmeans⟩ => hmeans.fits _ _ _
  policy ticket p := fun ⟨raw, hraw, hmeans⟩ =>
    ⟨raw, ⟨hv.policies ticket p _ hraw.sound, hraw.holds.policy ticket p⟩, hmeans⟩
  fetch k id h := by
    obtain ⟨t, ht, hafter⟩ := fetch_ok hv h k id
    rw [ht]
    exact ⟨rfl, hafter⟩
  store k id r expiry h hfits := by
    obtain ⟨t, ht, hafter⟩ := store_ok hv h k hfits expiry
    rw [ht]
    exact ⟨trivial, hafter⟩
  discard k id h := by
    obtain ⟨t, ht, hafter⟩ := discard_ok hv h k id
    rw [ht]
    exact ⟨rfl, hafter⟩
  upkeep k verb h := by
    obtain ⟨t, ht, hafter⟩ := upkeep_ok hv h k verb
    rw [ht]
    exact ⟨trivial, hafter⟩

theorem tiers_reliable : (tiers hv L).Reliable where
  fetch k id h := by
    obtain ⟨t, ht, -⟩ := fetch_ok hv h k id
    exact ⟨_, t, ht⟩
  store k id r expiry h hfits := by
    obtain ⟨t, ht, -⟩ := store_ok hv h k hfits expiry
    exact ⟨_, t, ht⟩
  discard k id h := by
    obtain ⟨t, ht, -⟩ := discard_ok hv h k id
    exact ⟨_, t, ht⟩
  upkeep k verb h := by
    obtain ⟨t, ht, -⟩ := upkeep_ok hv h k verb
    exact ⟨_, t, ht⟩

/-! ### Scans -/

omit [DecidableEq κ] in
theorem backend_keys_ok {raw : ι → ExpiringMap Bytes} (h : v.Has sound now s raw) (i : ι) :
    ∃ (keys : KeySet) (t : σ),
      ((v.backend i).keys now none).mapError StoreError.storage s = (.ok keys, t) ∧
      v.Has sound now t raw ∧
      ∀ id, Dictionary.contains keys id = true ↔ ((raw i).live? now id).isSome = true := by
  obtain ⟨keys, t, hok, hanswer, hafter⟩ := hv.perform h i (.keys none)
  rw [after, Function.update_eq_self] at hafter
  refine ⟨keys, t, Action.mapError_ok hok _, hafter, fun id => ?_⟩
  rw [hanswer id, Option.isSome_iff_exists]
  simp

omit [DecidableEq κ] in
theorem unionKeys_ok {raw : ι → ExpiringMap Bytes} (h : v.Has sound now s raw) (is : List ι)
    (known : KeySet) :
    ∃ keys t, Table.unionKeys now known (is.map v.backend) s = (.ok keys, t) ∧
      v.Has sound now t raw ∧ ∀ id, Dictionary.contains keys id = true ↔
        Dictionary.contains known id = true ∨ ∃ i ∈ is, ((raw i).live? now id).isSome = true := by
  induction is generalizing s known with
  | nil => exact ⟨known, s, rfl, h, fun id => by simp⟩
  | cons i rest ih =>
    obtain ⟨found, t, hfound, ht, hlive⟩ := backend_keys_ok hv h i
    obtain ⟨keys, u, hunion, hu, hcontains⟩ := ih ht (known.union found)
    refine ⟨keys, u, ?_, hu, fun id => ?_⟩
    · rw [List.map_cons, Table.unionKeys, Action.bind_ok hfound, hunion]
    · rw [hcontains, KeySet.contains_union, hlive]
      simp only [List.mem_cons, exists_eq_or_imp, or_assoc]

omit [DecidableEq κ] in
/-- The keys of a table are the identifiers that have a live cell. -/
theorem laidOn_keys_ok {t : Table σ} {maps : Table.Maps ι} (ht : t.LaidOn v.backend maps)
    {raw : ι → ExpiringMap Bytes} (h : v.Has sound now s raw) :
    ∃ keys u, t.keys now s = (.ok keys, u) ∧ v.Has sound now u raw ∧
      ∀ id, Dictionary.contains keys id = true ↔
        ∃ i ∈ maps.places t.schema.fields.keys, ((raw i).live? now id).isSome = true := by
  obtain ⟨known, u, hknown, hu, hlive⟩ := backend_keys_ok hv h maps.index
  obtain ⟨keys, w, hunion, hw, hcontains⟩ :=
    unionKeys_ok hv hu (t.schema.fields.keys.map maps.column) known
  refine ⟨keys, w, ?_, hw, fun id => ?_⟩
  · have hcolumns : t.columns.values = (t.schema.fields.keys.map maps.column).map v.backend :=
      (List.cons.inj ht.maps_eq).2
    unfold Table.keys
    rw [hcolumns, ht.index]
    exact (Action.bind_ok hknown _).trans hunion
  · rw [hcontains, hlive]
    simp only [Table.Maps.places, List.mem_cons, exists_eq_or_imp]

omit [DecidableEq κ] in
/-- The keys of a table are the identifiers of its live records. -/
theorem keys_ok (h : L.Holds v sound now s m) (k : κ) :
    ∃ keys t, (L.table v.backend k).keys now s = (.ok keys, t) ∧ L.Holds v sound now t m ∧
      ∀ id, Dictionary.contains keys id = true ↔ ((m k).live? now id).isSome = true := by
  obtain ⟨raw, hraw, hmeans⟩ := h
  obtain ⟨keys, t, hkeys, ht, hcontains⟩ := laidOn_keys_ok hv (L.table_laidOn v.backend k) hraw
  refine ⟨keys, t, hkeys, ⟨raw, ht, hmeans⟩, fun id => ?_⟩
  rw [hcontains, ← hmeans.any_live, List.any_eq_true]
  rfl

omit [DecidableEq κ] in
theorem get_ok (h : L.Holds v sound now s m) (k : κ) (id : String) :
    ∃ t, (L.table v.backend k).get now id s = (.ok (((m k).live? now id).map Prod.fst), t) ∧
      L.Holds v sound now t m := by
  obtain ⟨raw, hraw, hmeans⟩ := h
  have hget := Table.get_yields hv (fun _ => none) (L.table_laidOn_vault v k) hraw id
  have hview : (L.cells raw now id k).view L.fields id = some ((m k).live? now id) :=
    hmeans.view id k
  obtain ⟨t, ht, hholds⟩ :=
    (hview ▸ hget : Yields _ _ (some (((m k).live? now id).map Prod.fst))).ok
  exact ⟨t, ht, raw, hholds, hmeans⟩

omit [DecidableEq κ] in
theorem materialize_ok (h : L.Holds v sound now s m) (k : κ) (ids : List String) :
    ∃ t, (L.table v.backend k).materialize now ids s =
        (.ok (ids.filterMap fun id => ((m k).live? now id).map Prod.fst), t) ∧
      L.Holds v sound now t m :=
  Table.materialize_of_get (fun id s (hs : L.Holds v sound now s m) => get_ok hv hs k id) h ids

end

end Layout

end LayeredStore
