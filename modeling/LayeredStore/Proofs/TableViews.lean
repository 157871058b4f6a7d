import LayeredStore.Proofs.CellViews
import LayeredStore.Proofs.Population
import LayeredStore.Proofs.TableTiers

/-! # The views of a table

A table can be looked at in seven ways (`Table.View`), and each asks the index and the columns
in its own way: the keys are collected from all maps, a field from one column, a record from
one column after another.  Index and columns are written one by one and expire by themselves,
so they need not agree on which identifiers there are.

The views agree all the same.  Behind them is one listing of records by identifier
(`Table.Listing`), from which every answer is computed; and a look changes none of it, though
entries that have expired may be deleted on the way (`Table.views_agree`).  The one condition is
that no live cell is garbled.
-/
namespace LayeredStore

open ExpiringMap

/-- Keys that are kept are listed in the order they had. -/
theorem Dictionary.keys_filter {κ α : Type} [Ord κ] (p : κ → Bool) (d : Dictionary κ α) :
    (d.filter fun key _ => p key).keys = d.keys.filter p := by
  rw [keys, keys, filter, List.filter_map]
  rfl

theorem Dictionary.contains_filter {κ α : Type} [Ord κ] [Std.LawfulEqOrd κ] (p : κ → Bool)
    (d : Dictionary κ α) (key : κ) :
    (d.filter fun key _ => p key).contains key = (d.contains key && p key) := by
  rw [contains, contains, get?_filter]
  cases d.get? key with
  | none => rfl
  | some value => by_cases hp : p key <;> simp [hp]

namespace Table

/-! ### Looking at a table -/

/-- A way to look at a table. -/
inductive View
  /-- All identifiers. -/
  | keys
  /-- The record of an identifier. -/
  | get (id : String)
  /-- The record of an identifier with its expiry. -/
  | getWithExpiry (id : String)
  /-- Whether there is a record of an identifier. -/
  | contains (id : String)
  /-- The records that a query selects. -/
  | query (q : Query)
  /-- How many records pass a query's filter. -/
  | count (q : Query)
  /-- The records that have a value for a declared field. -/
  | withField (name : String)

/-- The kind of answer that a view has. -/
def View.Answer : View → Type
  | .keys => KeySet
  | .get _ => Option Record
  | .getWithExpiry _ => Option (Record × Int64)
  | .contains _ => Bool
  | .query _ => List Record
  | .count _ => Nat
  | .withField _ => List Record

/-- The records of a table, by their identifiers. -/
structure Listing where
  /-- The identifiers, in ascending order. -/
  ids : KeySet
  /-- The record of an identifier. -/
  record? : String → Option Record
  /-- When a record expires. -/
  expiry : String → Int64
  /-- The identifiers are exactly those that have a record. -/
  known : ∀ id, Dictionary.contains ids id = true ↔ (record? id).isSome = true

namespace Listing

/-- The records in the order of their identifiers. -/
def records (l : Listing) : List Record := l.ids.keys.filterMap l.record?

/-- What a view of a listing answers.  Only a field that is not declared cannot be asked for. -/
def answer (l : Listing) (schema : Schema) : (w : View) → Except StoreError w.Answer
  | .keys => .ok l.ids
  | .get id => .ok (l.record? id)
  | .getWithExpiry id => .ok ((l.record? id).map fun r => (r, l.expiry id))
  | .contains id => .ok (l.record? id).isSome
  | .query q => .ok (q.finish (l.records.filter q.accepts))
  | .count q => .ok (l.records.filter q.accepts).length
  | .withField name =>
    match schema.require name with
    | .error e => .error e
    | .ok _ => .ok (l.records.filter fun r => (r.fields.get? (normalizeName name)).isSome)

end Listing

section

variable {σ : Type} (t : Table σ) (now : Int64)

/-- Look at a table. -/
def look : (w : View) → Action σ StoreError w.Answer
  | .keys => t.keys now
  | .get id => t.get now id
  | .getWithExpiry id => t.getWithExpiry now id
  | .contains id => t.contains now id
  | .query q => t.query now q
  | .count q => t.count now q
  | .withField name => t.withField now name

/-- The state after a table was looked at several times. -/
def looked (views : List View) (s : σ) : σ := views.foldl (fun s w => (t.look now w s).2) s

end

/-! ### The listing of cells -/

section

variable {ι : Type} {maps : Maps ι} {fields : List String} {m : ι → ExpiringMap Bytes} {now : Int64}

/-- There is a cell just when one of the maps has a live entry. -/
theorem Maps.occupied_cells (id : String) : (maps.cells m now id).occupied fields = true ↔
    ∃ i ∈ maps.places fields, ((m i).live? now id).isSome = true := by
  simp [Cells.occupied, cells, places]

/-- The records of a listing are those that the live cells in the maps of a table make up. -/
structure Listing.Of (l : Listing) (maps : Maps ι) (fields : List String)
    (m : ι → ExpiringMap Bytes) (now : Int64) : Prop where
  /-- Where there is a cell there is a record. -/
  record : ∀ id, l.record? id =
    if (maps.cells m now id).occupied fields then some ((maps.cells m now id).record fields id)
    else none
  /-- It expires with the first of its cells. -/
  expiry : ∀ id, l.expiry id = (maps.cells m now id).soonest fields

variable {l : Listing} (hl : l.Of maps fields m now)
include hl

theorem Listing.Of.contains_ids (id : String) :
    Dictionary.contains l.ids id = true ↔ (maps.cells m now id).occupied fields = true := by
  rw [l.known, hl.record]
  split <;> simp [*]

/-- **The records that hold a field are those of the identifiers in its column**, in the same
order. -/
theorem Listing.Of.filter_records
    (hintact : ∀ id, ∀ f ∈ fields, (maps.cells m now id).garbled f = false) {f : String}
    (hf : f ∈ fields) {column : KeySet} (hcolumn : ∀ id,
      Dictionary.contains column id = true ↔ ((maps.cells m now id).column f).isSome = true) :
    l.records.filter (fun r => (r.fields.get? f).isSome) = column.keys.filterMap l.record? := by
  have hoccupied : ∀ id, ((maps.cells m now id).column f).isSome = true →
      (maps.cells m now id).occupied fields = true := by
    intro id hsome
    rw [Cells.occupied, Bool.or_eq_true, List.any_eq_true]
    exact .inr ⟨f, hf, hsome⟩
  have hsub : column = l.ids.filter fun id _ => ((maps.cells m now id).column f).isSome := by
    refine KeySet.ext_contains fun id => ?_
    rw [Dictionary.contains_filter, Bool.and_eq_true, hl.contains_ids, hcolumn]
    exact ⟨fun hsome => ⟨hoccupied id hsome, hsome⟩, fun h => h.2⟩
  have hholds : ∀ id, (((maps.cells m now id).record fields id).fields.get? f).isSome =
      ((maps.cells m now id).column f).isSome := by
    intro id
    rw [Cells.get?_record, if_pos hf, Cells.isSome_field? (hintact id f hf)]
  rw [hsub, Dictionary.keys_filter, Listing.records, List.filter_filterMap, List.filterMap_filter]
  refine List.filterMap_congr fun id _ => ?_
  rw [hl.record]
  by_cases hsome : ((maps.cells m now id).column f).isSome = true
  · rw [if_pos (hoccupied id hsome), if_pos hsome]
    exact Option.filter_some_pos (by rw [hholds, hsome])
  · rw [if_neg hsome]
    split
    · exact Option.filter_some_neg (by simpa [hholds] using hsome)
    · rfl

end

/-! ### What each look shows -/

section

variable {σ ι : Type} [PolicyKeeper σ] [DecidableEq ι] {v : Vault σ ι} {sound : σ → Prop}
  (hv : v.Reliable sound) {t : Table σ} {maps : Maps ι} (ht : t.LaidOn v.backend maps)
  {now : Int64} {s : σ} {m : ι → ExpiringMap Bytes} {l : Listing}
  (hl : l.Of maps t.schema.fields.keys m now)
  (hintact : ∀ id, ∀ f ∈ t.schema.fields.keys, (maps.cells m now id).garbled f = false)

omit [PolicyKeeper σ] [DecidableEq ι] in
/-- The column of a declared field. -/
theorem LaidOn.get?_column {b : ι → Backend σ} (ht : t.LaidOn b maps) {f : String}
    (hf : f ∈ t.schema.fields.keys) : t.columns.get? f = some (b (maps.column f)) := by
  have hmem : (f, b (maps.column f)) ∈ t.columns.toList := by
    rw [ht.columns]
    exact List.mem_map.2 ⟨f, hf, rfl⟩
  exact (Dictionary.get?_eq_some_iff t.columns f _).2 hmem

include hv ht

/-- There is a listing of what the maps hold. -/
theorem exists_listing (h : v.Has sound now s m) :
    ∃ l : Listing, l.Of maps t.schema.fields.keys m now := by
  obtain ⟨ids, -, -, -, hcontains⟩ := Layout.laidOn_keys_ok hv ht h
  refine ⟨⟨ids, fun id => if (maps.cells m now id).occupied t.schema.fields.keys
    then some ((maps.cells m now id).record t.schema.fields.keys id) else none,
    fun id => (maps.cells m now id).soonest t.schema.fields.keys, fun id => ?_⟩,
    fun _ => rfl, fun _ => rfl⟩
  rw [hcontains, ← Maps.occupied_cells]
  split <;> simp [*]

/-- Where no cell is garbled a get answers with what the cells make up. -/
theorem get_intact (h : v.Has sound now s m) {id : String}
    (hintact : ∀ f ∈ t.schema.fields.keys, (maps.cells m now id).garbled f = false) :
    ∃ u, t.get now id s =
        (.ok (if (maps.cells m now id).occupied t.schema.fields.keys then
            some ((maps.cells m now id).record t.schema.fields.keys id) else none), u) ∧
      v.Has sound now u m := by
  rw [← v.backend_refusing_none] at ht
  have hget := get_yields hv (fun _ => none) ht h id
  rw [Cells.view_eq id hintact, Option.map_some] at hget
  obtain ⟨u, hu, hhas⟩ := hget.ok
  refine ⟨u, ?_, hhas⟩
  rw [hu]
  split <;> rfl

/-- What a get answers with are the values of the cells. -/
theorem get?_of_get (h : v.Has sound now s m) {record : Record} {id : String}
    (hget : (t.get now id s).1 = .ok (some record)) {f : String} (hf : f ∈ t.schema.fields.keys) :
    record.fields.get? f = (maps.cells m now id).field? f := by
  rw [← v.backend_refusing_none] at ht
  have hanswer := ((get_yields hv (fun _ => none) ht h id).eq_ok_iff _).1 hget
  obtain ⟨e?, hview, he⟩ := Option.map_eq_some_iff.1 hanswer
  obtain ⟨⟨_, expiry⟩, rfl, rfl⟩ := Option.map_eq_some_iff.1 he
  obtain ⟨-, hseen, -⟩ := Cells.of_view id hview
  dsimp only at hseen ⊢
  rw [hseen, Cells.get?_record, if_pos hf]

include hl

/-- The keys are the same at every look. -/
theorem keys_shows (h : v.Has sound now s m) :
    ∃ u, t.keys now s = (.ok l.ids, u) ∧ v.Has sound now u m := by
  obtain ⟨keys, u, hkeys, hu, hcontains⟩ := Layout.laidOn_keys_ok hv ht h
  obtain rfl : keys = l.ids := KeySet.ext_contains fun id => by
    rw [hcontains, hl.contains_ids, Maps.occupied_cells]
  exact ⟨u, hkeys, hu⟩

include hintact

theorem get_shows (h : v.Has sound now s m) (id : String) :
    ∃ u, t.get now id s = (.ok (l.record? id), u) ∧ v.Has sound now u m := by
  rw [hl.record]
  exact get_intact hv ht h (hintact id)

theorem getWithExpiry_shows (h : v.Has sound now s m) (id : String) :
    ∃ u, t.getWithExpiry now id s = (.ok ((l.record? id).map fun r => (r, l.expiry id)), u) ∧
      v.Has sound now u m := by
  rw [← v.backend_refusing_none] at ht
  have hget := getWithExpiry_yields hv (fun _ => none) ht h id
  rw [Cells.view_eq id (hintact id)] at hget
  obtain ⟨u, hu, hhas⟩ := hget.ok
  refine ⟨u, ?_, hhas⟩
  rw [hu, hl.record, hl.expiry]
  split <;> rfl

theorem materialize_shows (h : v.Has sound now s m) (ids : List String) :
    ∃ u, t.materialize now ids s = (.ok (ids.filterMap l.record?), u) ∧ v.Has sound now u m :=
  materialize_of_get (fun id s (hs : v.Has sound now s m) => get_shows hv ht hl hintact hs id) h ids

theorem scan_shows (h : v.Has sound now s m) (q : Query) :
    ∃ u, t.scan now q s = (.ok (l.records.filter q.accepts), u) ∧ v.Has sound now u m := by
  obtain ⟨u, hu, hhas⟩ := keys_shows hv ht hl h
  obtain ⟨w, hw, hfinal⟩ := materialize_shows hv ht hl hintact hhas l.ids.keys
  refine ⟨w, ?_, hfinal⟩
  unfold scan
  exact (Action.bind_ok hu _).trans (Action.bind_ok hw _)

/-- The identifiers of a column are looked up one by one, and all of them have a record. -/
theorem withField_shows (h : v.Has sound now s m) (name : String) :
    ∃ u, t.withField now name s = (l.answer t.schema (.withField name), u) ∧
      v.Has sound now u m := by
  unfold withField
  simp only [Listing.answer]
  cases hrequire : t.schema.require name with
  | error e => exact ⟨s, rfl, h⟩
  | ok type =>
    have hf : normalizeName name ∈ t.schema.fields.keys := by
      rw [Dictionary.mem_keys_iff]
      unfold Schema.require at hrequire
      split at hrequire
      · next declared hsome => exact ⟨declared, hsome⟩
      · cases hrequire
    obtain ⟨column, u, hcolumn, hu, hcontains⟩ :=
      Layout.backend_keys_ok hv h (maps.column (normalizeName name))
    obtain ⟨w, hw, hfinal⟩ := materialize_shows hv ht hl hintact hu column.keys
    refine ⟨w, ?_, hfinal⟩
    rw [hl.filter_records hintact hf hcontains, ht.get?_column hf]
    exact (Action.bind_ok hcolumn _).trans hw

/-- **A look shows what the listing answers**, and the maps keep their live entries. -/
theorem look_shows (h : v.Has sound now s m) (w : View) :
    ∃ u, t.look now w s = (l.answer t.schema w, u) ∧ v.Has sound now u m := by
  cases w with
  | keys => exact keys_shows hv ht hl h
  | get id => exact get_shows hv ht hl hintact h id
  | getWithExpiry id => exact getWithExpiry_shows hv ht hl hintact h id
  | contains id =>
    obtain ⟨u, hu, hhas⟩ := get_shows hv ht hl hintact h id
    exact ⟨u, Action.bind_ok hu _, hhas⟩
  | query q | count q =>
    obtain ⟨u, hu, hhas⟩ := scan_shows hv ht hl hintact h q
    exact ⟨u, Action.bind_ok hu _, hhas⟩
  | withField name => exact withField_shows hv ht hl hintact h name

/-- However often a table is looked at, its maps keep their live entries. -/
theorem looked_has (h : v.Has sound now s m) (views : List View) :
    v.Has sound now (t.looked now views s) m := by
  induction views generalizing s with
  | nil => exact h
  | cons w rest ih =>
    obtain ⟨u, hu, hhas⟩ := look_shows hv ht hl hintact h w
    have hstate : (t.look now w s).2 = u := congrArg Prod.snd hu
    show v.Has sound now (t.looked now rest (t.look now w s).2) m
    rw [hstate]
    exact ih hhas

omit hl

/-- **The views of a table agree with each other.**  Over a reliable vault in which no live cell
of the table is garbled, whatever its index and its columns hold, there is one listing from which
every look is answered, and it is the same whatever has been looked at before. -/
theorem views_agree (h : v.Has sound now s m) :
    ∃ l : Listing, ∀ (before : List View) (w : View),
      (t.look now w (t.looked now before s)).1 = l.answer t.schema w := by
  obtain ⟨l, hl⟩ := exists_listing hv ht h
  refine ⟨l, fun before w => ?_⟩
  obtain ⟨u, hu, -⟩ := look_shows hv ht hl hintact (looked_has hv ht hl hintact h before) w
  exact congrArg Prod.fst hu

end

/-- A volume in memory where nothing is stored. -/
def untouched : Site := .ofVolumes default []

theorem untouched_has : Layout.memoryVault.Has (Site.Sound (fun _ => .memory) fun _ => false) 0
    untouched fun _ => ExpiringMap.empty := by
  have hempty : ∀ i, Site.bareContents .memory i untouched = ExpiringMap.empty := fun i =>
    Site.bareContents_new (Site.read_volume_ofVolumes default [] i.1)
  exact ⟨.ofVolumes fun _ => .new .memory false, fun i => .of_eq (hempty i)⟩

open Layout in
/-- A number that is not marked, and a mark without a number, for three seconds. -/
def scattered : Site :=
  let numbered := ((memoryVault.backend (0, "items#num")).put 0 "r"
    (Stored.bytes (Value.integer 42)) 0 untouched).2
  ((memoryVault.backend (0, "items#_oid")).put 0 "q" indexMarker 3 numbered).2

open Layout in
/-- When the mark has expired, the number is all that there is to see. -/
theorem views_agree_scattered :
    ∃ l : Listing, (∀ (before : List View) (w : View),
        ((items.table memoryVault.backend 0).look 4 w
          ((items.table memoryVault.backend 0).looked 4 before scattered)).1 =
            l.answer items.schema w) ∧
      l.ids = .ofKeys ["r"] ∧ l.record? "r" = some ⟨"r", .ofList [("num", .integer 42)]⟩ := by
  have hv := Site.vault_reliable (fun _ => .memory) fun _ => false
  have hnumbered := hv.put_has untouched_has (0, "items#num") "r"
    (Stored.bytes (Value.integer 42)) 0
  have hscattered := hv.put_has hnumbered (0, "items#_oid") "q" indexMarker 3
  have hlater := hscattered.later (show (0 : Int64) ≤ 4 by decide)
  have hintact : ∀ id, ∀ f ∈ items.schema.fields.keys, ((items.maps 0).cells
      (Function.update (Function.update (fun _ => ExpiringMap.empty) (0, "items#num")
        (ExpiringMap.empty.set "r" (some (Stored.bytes (Value.integer 42), 0)))) (0, "items#_oid")
        (ExpiringMap.empty.set "q" (some (indexMarker, 3)))) 4 id).garbled f = false := by
    intro id f hf
    obtain rfl | rfl : f = "num" ∨ f = "str_val" := by
      simpa using (show f ∈ ["num", "str_val"] from hf)
    · by_cases hid : id = "r"
      · subst hid
        decide +kernel
      · have hcell : (ExpiringMap.empty.set "r" (some (Stored.bytes (Value.integer 42), 0))).live? 4
            id = none := live?_set_of_ne _ _ hid _
        rw [Cells.garbled_eq]
        show Option.any _ ((ExpiringMap.empty.set "r" _).live? 4 id) = false
        rw [hcell]
        rfl
    · rfl
  obtain ⟨l, hl⟩ := views_agree hv (items.table_laidOn memoryVault.backend 0) hintact hlater
  have hget : ((items.table memoryVault.backend 0).get 4 "r" scattered).1.toOption =
      some (some ⟨"r", .ofList [("num", .integer 42)]⟩) := by decide +kernel
  refine ⟨l, hl, ?_, ?_⟩
  · exact (Except.ok.inj ((hl [] .keys).symm.trans rfl))
  · have hshown := congrArg Except.toOption (hl [] (.get "r"))
    exact Option.some.inj (hshown.symm.trans hget)

end Table

end LayeredStore
