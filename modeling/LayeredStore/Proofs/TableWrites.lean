import LayeredStore.Proofs.TableCells

/-! # What a table writes

A record is put cell by cell, the mark first.  The columns that a put reaches
(`Table.reached`) end before the first that refuses the write, and with the first whose
replaced bytes are no value, since those are only looked at when the new ones are in place.
`Table.put_yields` says exactly which cells there are afterwards and whether the put
succeeded.
-/
namespace LayeredStore

open ExpiringMap

/-- The cell that a record has in the column of a field. -/
def Record.cell (r : Record) (expiry : Int64) (f : String) : Option (Bytes × Int64) :=
  (r.fields.get? f).map fun value => (Stored.bytes value, expiry)

/-- The schema allows a record to be stored. -/
structure Schema.Allows (schema : Schema) (record : Record) : Prop where
  /-- The identifier is not empty. -/
  id : schema.checkId record.id = .ok ()
  /-- Every field is declared and of its type. -/
  fields : schema.checkAll record.fields.toList = .ok ()

instance (schema : Schema) (record : Record) : Decidable (schema.Allows record) :=
  match hid : schema.checkId record.id, hfields : schema.checkAll record.fields.toList with
  | .ok (), .ok () => .isTrue ⟨hid, hfields⟩
  | .error _, _ => .isFalse fun h => by rw [h.id] at hid; cases hid
  | .ok (), .error _ => .isFalse fun h => by rw [h.fields] at hfields; cases hfields

namespace Table

variable {ι : Type} [DecidableEq ι]

/-- The maps with other cells of an identifier in some columns. -/
def Maps.write (maps : Maps ι) (id : String) (cell : String → Option (Bytes × Int64))
    (fields : List String) (m : ι → ExpiringMap Bytes) : ι → ExpiringMap Bytes :=
  fields.foldl (fun m f => Function.update m (maps.column f) ((m (maps.column f)).set id (cell f))) m

/-- The columns that a write reaches: it stops before one that refuses it and behind one
that is garbled. -/
def reached (refuses garbled : String → Bool) : List String → List String
  | [] => []
  | f :: rest =>
    if refuses f then []
    else if garbled f then [f]
    else f :: reached refuses garbled rest

/-- The maps of a table with some columns. -/
def Maps.places {ι : Type} (maps : Maps ι) (fields : List String) : List ι :=
  maps.index :: fields.map maps.column

/-- The bytes in the column of a field are no value. -/
def Cells.garbled (c : Cells) (f : String) : Bool := (Cells.value? (c.column f)).isNone

/-- Whether the column of a field refuses to be written. -/
def Maps.refuses {ι : Type} (maps : Maps ι) (refusal : ι → Option StorageFailure) (f : String) :
    Bool :=
  (refusal (maps.column f)).isSome

variable {maps : Maps ι} {fields : List String} {id : String}
  {cell : String → Option (Bytes × Int64)}

/-! ### Changes of cells -/

theorem Maps.write_cons (maps : Maps ι) (id : String) (cell : String → Option (Bytes × Int64))
    (f : String) (rest : List String) (m : ι → ExpiringMap Bytes) :
    maps.write id cell (f :: rest) m = maps.write id cell rest
      (Function.update m (maps.column f) ((m (maps.column f)).set id (cell f))) := rfl

/-- A write leaves every map alone that is not one of its columns. -/
theorem Maps.write_of_notMem {i : ι} (h : i ∉ fields.map maps.column) (m : ι → ExpiringMap Bytes) :
    maps.write id cell fields m i = m i := by
  induction fields generalizing m with
  | nil => rfl
  | cons f rest ih =>
    obtain ⟨hf, hrest⟩ := not_or.1 (mt List.mem_cons.2 h)
    rw [Maps.write_cons, ih hrest, Function.update_of_ne hf]

/-- In a column it writes, the cell of the identifier is the given one. -/
theorem Maps.write_column {f : String} (hnodup : (fields.map maps.column).Nodup) (hf : f ∈ fields)
    (m : ι → ExpiringMap Bytes) :
    maps.write id cell fields m (maps.column f) = (m (maps.column f)).set id (cell f) := by
  induction fields generalizing m with
  | nil => cases hf
  | cons g rest ih =>
    obtain ⟨hnot, hrest⟩ := List.nodup_cons.1 hnodup
    rw [Maps.write_cons]
    rcases List.mem_cons.1 hf with rfl | hf
    · rw [Maps.write_of_notMem hnot, Function.update_self]
    · have hne : maps.column f ≠ maps.column g := fun heq => hnot (heq ▸ List.mem_map_of_mem hf)
      rw [ih hrest hf, Function.update_of_ne hne]

/-- A write leaves other identifiers alone. -/
theorem Maps.live?_write_of_ne {key : String} (hkey : key ≠ id) (now : Int64) (i : ι)
    (m : ι → ExpiringMap Bytes) :
    (maps.write id cell fields m i).live? now key = (m i).live? now key := by
  induction fields generalizing m with
  | nil => rfl
  | cons f rest ih =>
    rw [Maps.write_cons, ih]
    by_cases hi : i = maps.column f
    · subst hi
      rw [Function.update_self, live?_set_of_ne _ _ hkey]
    · rw [Function.update_of_ne hi]

/-- The maps after a put: the mark first, then the columns that are reached. -/
def Maps.put (maps : Maps ι) (refusal : ι → Option StorageFailure) (now : Int64)
    (fields : List String) (record : Record) (expiry : Int64) (m : ι → ExpiringMap Bytes) :
    ι → ExpiringMap Bytes :=
  if (refusal maps.index).isSome then m
  else
    maps.write record.id (record.cell expiry)
      (reached (maps.refuses refusal) (maps.cells m now record.id).garbled fields)
      (Function.update m maps.index ((m maps.index).set record.id (some (indexMarker, expiry))))

theorem reached_sublist (refuses garbled : String → Bool) (fields : List String) :
    (reached refuses garbled fields).Sublist fields := by
  induction fields with
  | nil => exact .slnil
  | cons f rest ih =>
    rw [reached]
    split
    · exact List.nil_sublist _
    · split
      · exact (List.nil_sublist rest).cons_cons f
      · exact ih.cons_cons f

theorem reached_congr {refuses garbled garbled' : String → Bool}
    (h : ∀ f ∈ fields, garbled f = garbled' f) :
    reached refuses garbled fields = reached refuses garbled' fields := by
  induction fields with
  | nil => rfl
  | cons f rest ih =>
    rw [reached, reached, h f List.mem_cons_self, ih fun g hg => h g (List.mem_cons_of_mem f hg)]

section

variable {σ : Type} [PolicyKeeper σ] {v : Vault σ ι} {sound : σ → Prop}
  (hv : v.Reliable sound) (refusal : ι → Option StorageFailure) {now : Int64} {s : σ}
  {m : ι → ExpiringMap Bytes}

include hv

/-- A put that is not refused is done. -/
theorem put_backend_yields (h : v.Has sound now s m) (i : ι) (id : String) (bytes : Bytes)
    (expiry : Int64) :
    Yields (v.Has sound now · (if (refusal i).isSome then m
        else Function.update m i ((m i).set id (some (bytes, expiry)))))
      (((v.refusing refusal).backend i).put now id bytes expiry s)
      (if (refusal i).isSome then none else some (((m i).live? now id).map Prod.fst)) := by
  show Yields _ (((v.refusing refusal).backend i).perform (.put id bytes expiry) now s) _
  rw [Vault.perform_refusing_put]
  cases refusal i with
  | some failure => exact ⟨rfl, h⟩
  | none =>
    obtain ⟨a, s', hok, hanswer, hafter⟩ := hv.perform h i (.put id bytes expiry)
    rw [hok]
    exact ⟨congrArg some hanswer, hafter⟩

theorem remove_backend_yields (h : v.Has sound now s m) (i : ι) (id : String) :
    Yields (v.Has sound now · (if (refusal i).isSome then m
        else Function.update m i ((m i).set id none)))
      (((v.refusing refusal).backend i).remove now id s)
      (if (refusal i).isSome then none else some (((m i).live? now id).map Prod.fst)) := by
  show Yields _ (((v.refusing refusal).backend i).perform (.remove id) now s) _
  rw [Vault.perform_refusing_remove]
  cases refusal i with
  | some failure => exact ⟨rfl, h⟩
  | none =>
    obtain ⟨a, s', hok, hanswer, hafter⟩ := hv.perform h i (.remove id)
    rw [hok]
    exact ⟨congrArg some hanswer, hafter⟩

/-- A typed write stores its cell before it looks at the one that it replaces. -/
theorem column_put_yields (h : v.Has sound now s m) (i : ι) (id : String) (value : Value)
    (expiry : Int64) :
    Yields (v.Has sound now · (if (refusal i).isSome then m
        else Function.update m i ((m i).set id (some (Stored.bytes value, expiry)))))
      ((column ((v.refusing refusal).backend i)).put now id value expiry s)
      (if (refusal i).isSome then none else Cells.value? ((m i).live? now id)) := by
  have hput := put_backend_yields hv refusal h i id (Stored.bytes value) expiry
  have hdecode := hput.bind_same fun replaced? t ht => Yields.ofExcept
    (x := (column ((v.refusing refusal).backend i)).decodeAnswer id replaced?) ht
  rw [apply_ite (Option.bind · _), Option.bind_some, decodeAnswer_toOption] at hdecode
  exact hdecode

theorem column_remove_yields (h : v.Has sound now s m) (i : ι) (id : String) :
    Yields (v.Has sound now · (if (refusal i).isSome then m
        else Function.update m i ((m i).set id none)))
      ((column ((v.refusing refusal).backend i)).remove now id s)
      (if (refusal i).isSome then none else Cells.value? ((m i).live? now id)) := by
  have hremove := remove_backend_yields hv refusal h i id
  have hdecode := hremove.bind_same fun removed? t ht => Yields.ofExcept
    (x := (column ((v.refusing refusal).backend i)).decodeAnswer id removed?) ht
  rw [apply_ite (Option.bind · _), Option.bind_some, decodeAnswer_toOption] at hdecode
  exact hdecode

omit hv in
/-- A column is written, and if that succeeds so are the ones after it. -/
theorem write_then_yields {cell : String → Option (Bytes × Int64)} {f : String}
    {rest : List String} {garbled : String → Bool}
    (hgarbled : garbled f = (maps.cells m now id).garbled f)
    {x : Action σ StoreError (Option Value)} {others : Action σ StoreError Unit}
    (hx : Yields (v.Has sound now · (if maps.refuses refusal f then m else maps.write id cell [f] m))
      (x s) (if maps.refuses refusal f then none
        else Cells.value? ((m (maps.column f)).live? now id)))
    (hothers : ∀ t, v.Has sound now t (maps.write id cell [f] m) →
      Yields (v.Has sound now · (maps.write id cell (reached (maps.refuses refusal) garbled rest)
          (maps.write id cell [f] m))) (others t)
        (if rest.any fun f => maps.refuses refusal f || garbled f then none else some ())) :
    Yields (v.Has sound now · (maps.write id cell
        (reached (maps.refuses refusal) garbled (f :: rest)) m)) ((x >>= fun _ => others) s)
      (if (f :: rest).any fun f => maps.refuses refusal f || garbled f then none else some ()) := by
  rw [reached, List.any_cons]
  by_cases hrefused : maps.refuses refusal f = true
  · rw [if_pos hrefused, if_pos hrefused] at hx
    obtain ⟨e, t, hxs, ht⟩ := hx.error
    rw [Action.bind_error hxs, if_pos hrefused, hrefused, Bool.true_or, Bool.true_or]
    exact ⟨rfl, ht⟩
  rw [if_neg hrefused, if_neg hrefused] at hx
  -- The column is written either way; a garbled value that it replaces stops what follows.
  rw [if_neg hrefused, Bool.eq_false_iff.2 hrefused, Bool.false_or]
  rw [Cells.garbled, Maps.cells] at hgarbled
  cases hold : Cells.value? ((m (maps.column f)).live? now id) with
  | none =>
    rw [hold] at hgarbled hx
    obtain ⟨e, t, hxs, ht⟩ := hx.error
    rw [Action.bind_error hxs, hgarbled, Option.isNone_none, if_pos rfl, Bool.true_or]
    exact ⟨rfl, ht⟩
  | some old? =>
    rw [hold] at hgarbled hx
    obtain ⟨t, hxs, ht⟩ := hx.ok
    rw [Action.bind_ok hxs, hgarbled, Option.isNone_some, Bool.false_or,
      if_neg Bool.false_ne_true]
    exact hothers t ht

/-- **Replacing the fields of a record** writes the columns that are reached. -/
theorem replaceFields_yields (record : Record) (expiry : Int64) {garbled : String → Bool}
    (hgarbled : ∀ f ∈ fields, garbled f = (maps.cells m now record.id).garbled f)
    (hnodup : (fields.map maps.column).Nodup) (h : v.Has sound now s m) :
    Yields (v.Has sound now · (maps.write record.id (record.cell expiry)
        (reached (maps.refuses refusal) garbled fields) m))
      (replaceFields now record expiry
        (fields.map fun f => (f, (v.refusing refusal).backend (maps.column f))) s)
      (if fields.any fun f => maps.refuses refusal f || garbled f then none else some ()) := by
  induction fields generalizing s m with
  | nil => exact .pure h
  | cons f rest ih =>
    obtain ⟨hnot, hrest⟩ := List.nodup_cons.1 hnodup
    have hothers : ∀ t, v.Has sound now t (maps.write record.id (record.cell expiry) [f] m) →
        Yields (v.Has sound now · (maps.write record.id (record.cell expiry)
            (reached (maps.refuses refusal) garbled rest)
            (maps.write record.id (record.cell expiry) [f] m)))
          (replaceFields now record expiry
            (rest.map fun f => (f, (v.refusing refusal).backend (maps.column f))) t)
          (if rest.any fun f => maps.refuses refusal f || garbled f then none else some ()) := by
      refine fun t ht => ih (fun g hg => ?_) hrest ht
      -- What is garbled is told by the maps at the start; writing `f` left the rest of them.
      have hne : maps.column g ∉ [f].map maps.column := fun hmem =>
        hnot (List.mem_singleton.1 hmem ▸ List.mem_map_of_mem hg)
      rw [hgarbled g (List.mem_cons_of_mem f hg)]
      simp only [Cells.garbled, Maps.cells, Maps.write_of_notMem hne]
    rw [List.map_cons, replaceFields]
    cases hfield : record.fields.get? f with
    | some value =>
      have hcell : record.cell expiry f = some (Stored.bytes value, expiry) := by
        rw [Record.cell, hfield, Option.map_some]
      refine write_then_yields refusal (hgarbled f List.mem_cons_self) ?_ hothers
      rw [Maps.write_cons, hcell]
      exact (column_put_yields hv refusal h (maps.column f) record.id value expiry).mapError _
    | none =>
      have hcell : record.cell expiry f = none := by rw [Record.cell, hfield, Option.map_none]
      refine write_then_yields refusal (hgarbled f List.mem_cons_self) ?_ hothers
      rw [Maps.write_cons, hcell]
      exact (column_remove_yields hv refusal h (maps.column f) record.id).mapError _

omit [PolicyKeeper σ] hv in
/-- A record that the schema does not allow is not put. -/
theorem put_not_allowed {t : Table σ} {record : Record} (expiry : Int64)
    (hnot : ¬t.schema.Allows record) : ∃ e, t.put now record expiry s = (.error e, s) := by
  unfold put
  cases hid : t.schema.checkId record.id with
  | error e => exact ⟨e, rfl⟩
  | ok _ =>
    cases hall : t.schema.checkAll record.fields.toList with
    | error e => exact ⟨e, rfl⟩
    | ok _ => exact absurd ⟨hid, hall⟩ hnot

/-- **A put writes the mark and then the columns that are reached**, and succeeds just when
no map refuses and nothing it replaces is garbled. -/
theorem put_yields {t : Table σ} (ht : t.LaidOn (v.refusing refusal).backend maps)
    (hnodup : (maps.places t.schema.fields.keys).Nodup) {record : Record}
    (hallows : t.schema.Allows record) (expiry : Int64) (h : v.Has sound now s m) :
    Yields (v.Has sound now · (maps.put refusal now t.schema.fields.keys record expiry m))
      (t.put now record expiry s)
      (if (refusal maps.index).isSome || t.schema.fields.keys.any fun f =>
          maps.refuses refusal f || (maps.cells m now record.id).garbled f
        then none else some ()) := by
  obtain ⟨hindex, hcolumns⟩ := List.nodup_cons.1 hnodup
  have hmark := (put_backend_yields hv refusal h maps.index record.id indexMarker expiry).mapError
    StoreError.storage
  rw [← ht.index] at hmark
  unfold put mark Maps.put
  rw [Action.bind_ok (a := ()) (t := s) (by rw [require, hallows.id]; rfl),
    Action.bind_ok (a := ()) (t := s) (by rw [require, hallows.fields]; rfl), ht.columns]
  -- A refused mark stops the put before any column.
  cases hrefused : (refusal maps.index).isSome with
  | true =>
    rw [hrefused, if_pos rfl, if_pos rfl] at hmark
    obtain ⟨e, u, hmarks, hu⟩ := hmark.error
    rw [Action.bind_error (Action.bind_error hmarks _)]
    exact ⟨rfl, hu⟩
  | false =>
    rw [hrefused, if_neg Bool.false_ne_true, if_neg Bool.false_ne_true] at hmark
    obtain ⟨u, hmarks, hu⟩ := hmark.ok
    rw [Action.bind_ok (a := ()) (t := u) (Action.bind_ok hmarks _), Bool.false_or,
      if_neg Bool.false_ne_true]
    refine replaceFields_yields hv refusal record expiry (fun f hf => ?_) hcolumns hu
    have hne : maps.column f ≠ maps.index := fun heq => hindex (heq ▸ List.mem_map_of_mem hf)
    simp only [Cells.garbled, Maps.cells, Function.update_of_ne hne]

end

end Table

end LayeredStore
