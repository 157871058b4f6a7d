import LayeredStore.Proofs.TableAppends
import LayeredStore.Proofs.UnnamedFields

/-! # A stack with one table

An append to a table writes the mark and the given fields and leaves the other cells of the
record alone.  An append to a stack whose only layer is that table (`TableStack.OnlyLayer`)
reads the record, merges the fields into it and puts the whole record back.  So both leave
the same marks and the same given fields, but the stack stores every other value anew, for as
long as what it writes lives (`Table.Cells.restored`, `Table.Maps.Renewed`): a field that was
to expire later expires with the rest, and so does one that was to expire sooner.

The schema looks at the whole record that a stack puts back, so a cell that holds a value of
another type than its field has now stops the append there (`Table.Cells.Accepted`).
-/
namespace LayeredStore

open ExpiringMap

/-- A field of two records together is that of the second if it has one. -/
theorem Record.get?_merge (r patch : Record) (f : String) :
    (r.merge patch).fields.get? f = (patch.fields.get? f).or (r.fields.get? f) := by
  cases hvalue : patch.fields.get? f with
  | none => rw [get?_merge_of_none hvalue, Option.none_or]
  | some value =>
    exact Dictionary.get?_insertAll_of_mem _ (Dictionary.nodup_keys patch.fields)
      ((Dictionary.get?_eq_some_iff patch.fields f value).1 hvalue)

namespace Table

namespace Cells

variable (c : Cells)

/-- The value in the column of a field, with its expiry. -/
def held (f : String) : Option (Value × Int64) :=
  (c.column f).bind fun cell => (Stored.ofBytes? cell.1).map fun value => (value, cell.2)

/-- The cells with every value stored anew until an expiry. -/
def restored (expiry : Int64) : Cells :=
  ⟨c.mark?, fun f => (c.field? f).map fun value => (Stored.bytes value, expiry)⟩

/-- The values in the cells that a record does not replace pass the checks of a schema. -/
def Accepted (schema : Schema) (patch : Record) : Prop :=
  ∀ f ∈ schema.fields.keys, patch.fields.get? f = none →
    ∀ value, c.field? f = some value → schema.check f value = .ok ()

variable {c}

theorem field?_of_held {f : String} {value : Value} {expiry : Int64}
    (h : c.held f = some (value, expiry)) : c.field? f = some value := by
  obtain ⟨cell, hcell, hvalue⟩ := Option.bind_eq_some_iff.1 h
  obtain ⟨read, hread, heq⟩ := Option.map_eq_some_iff.1 hvalue
  rw [field?, hcell, Option.bind_some, hread]
  exact congrArg some (Prod.mk.inj heq).1

/-- The record that the cells make up, or a blank one, with the fields of another over its own. -/
def patched (c : Cells) (fields : List String) (id : String) (patch : Record) : Record :=
  ((if c.occupied fields then some (c.record fields id) else none).getD (.blank id)).merge patch

@[simp] theorem id_patched (c : Cells) (fields : List String) (id : String) (patch : Record) :
    (c.patched fields id patch).id = id := by
  unfold patched
  split <;> rfl

theorem get?_patched (c : Cells) (fields : List String) (id : String) (patch : Record) (f : String) :
    (c.patched fields id patch).fields.get? f =
      (patch.fields.get? f).or (if f ∈ fields then c.field? f else none) := by
  rw [patched, Record.get?_merge, ← c.get?_seen fields id f]
  split <;> rfl

/-- Its cells are the old ones stored anew, with the new fields over them. -/
theorem column_of_patched {fields : List String} (id : String) (patch : Record) (expiry : Int64)
    {f : String} (hf : f ∈ fields) :
    (of (some (c.patched fields id patch, expiry))).column f =
      ((c.restored expiry).overwritten patch expiry).column f := by
  show (Record.cell _ expiry f) = (patch.cell expiry f).or _
  rw [Record.cell, Record.cell, get?_patched, if_pos hf]
  cases patch.fields.get? f <;> rfl

/-- The schema lets it pass just when it accepts what is kept. -/
theorem checkAll_patched_iff {schema : Schema} (id : String) {patch : Record}
    (hpatch : schema.checkAll patch.fields.toList = .ok ()) :
    schema.checkAll (c.patched schema.fields.keys id patch).fields.toList = .ok () ↔
      c.Accepted schema patch := by
  rw [Schema.checkAll_eq_ok_iff] at hpatch ⊢
  constructor
  · intro hall f hf hnone value hvalue
    refine hall (f, value) ((Dictionary.get?_eq_some_iff _ f value).1 ?_)
    rw [get?_patched, hnone, Option.none_or, if_pos hf, hvalue]
  · rintro haccepted ⟨f, value⟩ hmem
    have hget := (Dictionary.get?_eq_some_iff _ f value).2 hmem
    rw [get?_patched] at hget
    cases hgiven : patch.fields.get? f with
    | some given =>
      rw [hgiven, Option.some_or] at hget
      exact hpatch (f, value) ((Dictionary.get?_eq_some_iff patch.fields f value).1
        (hgiven.trans hget))
    | none =>
      rw [hgiven, Option.none_or] at hget
      split at hget
      · next hf => exact haccepted f hf hgiven value hget
      · cases hget

end Cells

/-- What an append through a stack leaves in the maps of its only table (`m₂`), beside what an
append to the table leaves there (`m₁`), both from the same maps (`m`).  `own` is the expiry of
what the table writes, `expiry` that of what the stack writes. -/
structure Maps.Renewed {ι : Type} (maps : Maps ι) (keys : List String) (now : Int64)
    (patch : Record) (own expiry : Int64) (m m₁ m₂ : ι → ExpiringMap Bytes) : Prop where
  /-- Neither touches another identifier. -/
  others : ∀ id, id ≠ patch.id →
    maps.cells m₁ now id = maps.cells m now id ∧ maps.cells m₂ now id = maps.cells m now id
  /-- Both leave the same mark. -/
  mark : own = expiry → (maps.cells m₂ now patch.id).mark? = (maps.cells m₁ now patch.id).mark?
  /-- Both leave the same in the column of a field that is named. -/
  named : own = expiry → ∀ f ∈ keys, patch.fields.get? f ≠ none →
    (maps.cells m₂ now patch.id).column f = (maps.cells m₁ now patch.id).column f
  /-- The table leaves a field alone that is not named. -/
  kept : ∀ f ∈ keys, patch.fields.get? f = none →
    (maps.cells m₁ now patch.id).column f = (maps.cells m now patch.id).column f
  /-- The stack leaves such a field its value, which from now on expires with the rest. -/
  renewed : ∀ f ∈ keys, patch.fields.get? f = none → ∀ value old,
    (maps.cells m now patch.id).held f = some (value, old) → value.Exact →
      (maps.cells m₂ now patch.id).held f =
        (some (value, expiry)).filter fun e => !isExpired e.2 now
  /-- It gives no value to a field that had none. -/
  absent : ∀ f ∈ keys, patch.fields.get? f = none →
    (maps.cells m now patch.id).column f = none → (maps.cells m₂ now patch.id).column f = none

/-- An append to the table and a put of the patched record leave such maps. -/
theorem Maps.Renewed.of_accepted {ι : Type} [DecidableEq ι] {maps : Maps ι} {schema : Schema}
    (hnodup : (maps.places schema.fields.keys).Nodup) {now : Int64} {m : ι → ExpiringMap Bytes}
    {patch : Record} (hdeclared : ∀ f ∈ patch.fields.keys, f ∈ schema.fields.keys)
    (hintact : ∀ f ∈ schema.fields.keys, (maps.cells m now patch.id).garbled f = false)
    (haccepted : (maps.cells m now patch.id).Accepted schema patch) (own expiry : Int64) :
    maps.Renewed schema.fields.keys now patch own expiry m (maps.appended patch own m)
      (maps.put (fun _ => none) now schema.fields.keys
        ((maps.cells m now patch.id).patched schema.fields.keys patch.id patch) expiry m) := by
  have happended := cells_appended_later hnodup hdeclared own now m
  have hput := cells_put_whole (r := (maps.cells m now patch.id).patched schema.fields.keys patch.id
    patch) hnodup (by rwa [Cells.id_patched]) expiry
  rw [Cells.id_patched, Cells.of_filter] at hput
  have hrenewed : ∀ f ∈ schema.fields.keys, (maps.cells (maps.put (fun _ => none) now
      schema.fields.keys ((maps.cells m now patch.id).patched schema.fields.keys patch.id patch)
        expiry m) now patch.id).column f =
      ((((maps.cells m now patch.id).restored expiry).overwritten patch expiry).later now).column f :=
    fun f hf => (hput.column f hf).trans
      (congrArg (Option.filter _) (Cells.column_of_patched patch.id patch expiry hf))
  have hcell : ∀ {f}, patch.fields.get? f = none → ∀ e, patch.cell e f = none := by
    intro f hunnamed e
    rw [Record.cell, hunnamed, Option.map_none]
  constructor
  case others =>
    intro id hid
    exact ⟨cells_appended_of_ne hid own now m,
      cells_put_of_ne (fun _ => none) now _ expiry (by rwa [Cells.id_patched]) m⟩
  case mark =>
    rintro rfl
    rw [happended.mark, hput.mark]
    rfl
  case named =>
    rintro rfl f hf hnamed
    obtain ⟨value, hvalue⟩ := Option.ne_none_iff_exists'.1 hnamed
    rw [happended.column f hf, hrenewed f hf]
    simp only [Cells.later, Cells.overwritten, Record.cell, hvalue, Option.map_some, Option.some_or]
  case kept =>
    intro f hf hunnamed
    rw [happended.column f hf]
    simp only [Cells.later, Cells.overwritten, hcell hunnamed, Option.none_or]
    exact (live?_later (Int64.le_refl now) _ _).symm
  case renewed =>
    intro f hf hunnamed value old hheld hexact
    have hvalue := Cells.field?_of_held hheld
    have hread : Stored.ofBytes? (Stored.bytes value) = some value :=
      Stored.ofBytes?_value (Schema.readsBack_of_check (haccepted f hf hunnamed value hvalue) hexact)
    rw [Cells.held, hrenewed f hf]
    simp only [Cells.later, Cells.overwritten, hcell hunnamed, Option.none_or, Cells.restored,
      hvalue, Option.map_some]
    cases hdead : isExpired expiry now <;> simp [Option.filter_some, hdead, hread]
  case absent =>
    intro f hf hunnamed hnone
    rw [hrenewed f hf]
    simp only [Cells.later, Cells.overwritten, hcell hunnamed, Option.none_or, Cells.restored,
      Cells.field?, hnone, Option.bind_none, Option.map_none, Option.filter_none]

end Table

/-- A stack whose only layer is a table. -/
structure TableStack.OnlyLayer {σ : Type} (o : TableStack σ) (t : Table σ) : Prop where
  /-- They have one schema. -/
  schema : o.schema = t.schema
  /-- The table is the layer. -/
  layers : o.stack.layers = [t.layer]

/-- A stack put together of one table has it as its only layer. -/
theorem TableStack.OnlyLayer.of_ofTables {σ : Type} [PolicyKeeper σ] {t : Table σ}
    {settings : Settings} {o : TableStack σ} {s s' : σ}
    (h : ofTables [t] settings s = (.ok o, s')) : o.OnlyLayer t := by
  obtain ⟨stack, u, hcompose, hrest⟩ := Action.exists_of_bind_ok h
  obtain ⟨ho, -⟩ := Prod.mk.inj hrest
  obtain rfl := Except.ok.inj ho
  refine ⟨rfl, ?_⟩
  unfold Stack.compose at hcompose
  cases hvalid : settings.validate with
  | error fault =>
    rw [hvalid] at hcompose
    cases hcompose
  | ok _ =>
    rw [hvalid] at hcompose
    obtain ⟨hstack, -⟩ := Prod.mk.inj hcompose
    obtain rfl := Except.ok.inj hstack
    rfl

/-! ### Stacks with one layer -/

section

variable {σ V : Type} {stack : Stack σ V} {l : Layer σ V} (hlayers : stack.layers = [l])
  {now : Int64} {id : String} {s s' : σ}

include hlayers

theorem Stack.read_only {e? : Option (V × Int64)} (h : l.fetch now id s = (.ok e?, s')) :
    stack.read now id s = (.ok (e?.map Prod.fst), s') := by
  unfold Stack.read
  rw [hlayers, searchFrom, h]
  rcases e? with _ | ⟨value, expiry⟩ <;> rfl

theorem Stack.write_only {value : V}
    (h : l.store now id value (expiryAfter now stack.lifespan) s = (.ok (), s')) :
    stack.write now id value s = (.ok (), s') := by
  unfold Stack.write Stack.writeExpiring
  rw [hlayers]
  refine Action.bind_ok (a := [()]) (t := s') ?_ _
  unfold fanOut attemptEach attemptEach
  rw [h]
  rfl

theorem Stack.write_only_failed {value : V} {e : StoreError}
    (h : l.store now id value (expiryAfter now stack.lifespan) s = (.error e, s')) :
    stack.write now id value s = (.error (.partialFailure "write" 1 [⟨0, l.label, e⟩]), s') := by
  unfold Stack.write Stack.writeExpiring
  rw [hlayers]
  refine Action.bind_error (t := s') ?_ _
  unfold fanOut attemptEach attemptEach
  rw [h]
  rfl

end

/-! ### Appending to a table and through it -/

namespace Table

variable {σ ι : Type} [PolicyKeeper σ] [DecidableEq ι] {v : Vault σ ι} {sound : σ → Prop}
  (hv : v.Reliable sound) {t : Table σ} {o : TableStack σ} (ho : o.OnlyLayer t) {maps : Maps ι}
  (ht : t.LaidOn v.backend maps) (hnodup : (maps.places t.schema.fields.keys).Nodup)
  {now : Int64} {s : σ} {m : ι → ExpiringMap Bytes} (h : v.Has sound now s m)

include hv ht h

/-- The stack reads what the cells make up. -/
theorem fetch_intact {id : String}
    (hintact : ∀ f ∈ t.schema.fields.keys, (maps.cells m now id).garbled f = false) :
    ∃ u, t.layer.fetch now id s = (.ok (if (maps.cells m now id).occupied t.schema.fields.keys then
        some ((maps.cells m now id).record t.schema.fields.keys id,
          (maps.cells m now id).soonest t.schema.fields.keys) else none), u) ∧
      v.Has sound now u m := by
  rw [← v.backend_refusing_none] at ht
  have hfetch := getWithExpiry_yields hv (fun _ => none) ht h id
  rw [Cells.view_eq id hintact] at hfetch
  exact hfetch.ok

include hnodup

/-- A put over cells of which none is garbled is done if the schema allows it. -/
theorem put_intact {r : Record} (hallows : t.schema.Allows r)
    (hintact : ∀ f ∈ t.schema.fields.keys, (maps.cells m now r.id).garbled f = false)
    (expiry : Int64) : ∃ u, t.put now r expiry s = (.ok (), u) ∧
      v.Has sound now u (maps.put (fun _ => none) now t.schema.fields.keys r expiry m) := by
  rw [← v.backend_refusing_none] at ht
  have hput := put_yields hv (fun _ => none) ht hnodup hallows expiry h
  have hnone : (((fun _ => none : ι → Option StorageFailure) maps.index).isSome ||
      t.schema.fields.keys.any fun f => maps.refuses (fun _ => none) f ||
        (maps.cells m now r.id).garbled f) = false := by
    rw [Bool.or_eq_false_iff, List.any_eq_false]
    exact ⟨rfl, fun f hf => by simp [Maps.refuses, hintact f hf]⟩
  rw [hnone, if_neg Bool.false_ne_true] at hput
  exact hput.ok

include ho

/-- **An append through a stack puts the patched record back**, if the schema accepts what it
keeps, and is refused otherwise. -/
theorem append_only_layer {id : String} (fresh : String) (hid : id ≠ "")
    {fields : List (String × Value)}
    (hfields : t.schema.checkAll (Record.ofFields id fields).fields.toList = .ok ())
    (hintact : ∀ f ∈ t.schema.fields.keys, (maps.cells m now id).garbled f = false) :
    ((maps.cells m now id).Accepted t.schema (.ofFields id fields) →
      ∃ u, o.append now (some id) fresh fields s = (.ok (.ofFields id fields), u) ∧
        v.Has sound now u (maps.put (fun _ => none) now t.schema.fields.keys
          ((maps.cells m now id).patched t.schema.fields.keys id (.ofFields id fields))
          (expiryAfter now o.stack.lifespan) m)) ∧
    (¬(maps.cells m now id).Accepted t.schema (.ofFields id fields) →
      ∃ e u, o.append now (some id) fresh fields s = (.error e, u) ∧ v.Has sound now u m) := by
  have hpatch : (Record.ofFields id fields).id = id := Record.id_ofFields id fields
  have hidentified : t.schema.checkId id = .ok () := if_neg hid
  have happend : o.append now (some id) fresh fields s =
      (o.stack.update now (Record.ofFields id fields).id (fun current? =>
        (current?.getD (.blank (Record.ofFields id fields).id)).merge (.ofFields id fields)) >>=
          fun _ => pure (Record.ofFields id fields)) s := by
    have hcheckId : Table.require (σ := σ) (o.schema.checkId id) s = (.ok (), s) := by
      rw [ho.schema, hidentified]
      rfl
    have hcheckAll : Table.require (σ := σ) (o.schema.checkAll
        (Record.ofFields id fields).fields.toList) s = (.ok (), s) := by
      rw [ho.schema, hfields]
      rfl
    exact (Action.bind_ok hcheckId _).trans (Action.bind_ok hcheckAll _)
  rw [happend, hpatch]
  generalize Record.ofFields id fields = patch at hfields ⊢
  obtain ⟨w, hfetch, hw⟩ := fetch_intact hv ht h hintact
  have hread := Stack.read_only ho.layers hfetch
  rw [apply_ite (Option.map Prod.fst)] at hread
  have hstore : ∀ expiry, t.layer.store now id
      ((maps.cells m now id).patched t.schema.fields.keys id patch) expiry =
        t.put now ((maps.cells m now id).patched t.schema.fields.keys id patch) expiry := by
    intro expiry
    have hown := (maps.cells m now id).id_patched t.schema.fields.keys id patch
    generalize (maps.cells m now id).patched t.schema.fields.keys id patch = r at hown ⊢
    subst hown
    rfl
  have hiff := (maps.cells m now id).checkAll_patched_iff id hfields
  constructor
  · intro haccepted
    have hallows : t.schema.Allows ((maps.cells m now id).patched t.schema.fields.keys id patch) :=
      ⟨by rw [Cells.id_patched, hidentified], hiff.2 haccepted⟩
    obtain ⟨u, hput, hu⟩ := put_intact hv ht hnodup hw hallows
      (by rw [Cells.id_patched]; exact hintact) (expiryAfter now o.stack.lifespan)
    rw [← hstore] at hput
    have hwrite := Stack.write_only ho.layers hput
    exact ⟨u, Action.bind_ok ((Action.bind_ok hread _).trans (Action.bind_ok hwrite _)) _, hu⟩
  · intro hrefused
    have hnot : ¬t.schema.Allows ((maps.cells m now id).patched t.schema.fields.keys id patch) :=
      fun hallows => hrefused (hiff.1 hallows.fields)
    obtain ⟨e, hput⟩ := put_not_allowed (expiryAfter now o.stack.lifespan) hnot
    rw [← hstore] at hput
    have hwrite := Stack.write_only_failed ho.layers hput
    exact ⟨_, w, Action.bind_error
      ((Action.bind_ok hread _).trans (Action.bind_error hwrite _)) _, hw⟩

/-- **Appending to a table and through a stack that has it as its only layer.**  The append to
the table is done.  The one through the stack is done as well if the schema accepts the values
that the record keeps, and then leaves the same, except that the fields that were not named
have a new expiry; otherwise it is refused and leaves the maps alone. -/
theorem append_renewed {id : String} (fresh : String) (hid : id ≠ "")
    {fields : List (String × Value)}
    (hfields : t.schema.checkAll (Record.ofFields id fields).fields.toList = .ok ())
    (hintact : ∀ f ∈ t.schema.fields.keys, (maps.cells m now id).garbled f = false) :
    ∃ s₁ m₁, t.append now (some id) fresh fields s = (.ok (.ofFields id fields), s₁) ∧
      v.Has sound now s₁ m₁ ∧
      ((maps.cells m now id).Accepted t.schema (.ofFields id fields) →
        ∃ s₂ m₂, o.append now (some id) fresh fields s = (.ok (.ofFields id fields), s₂) ∧
          v.Has sound now s₂ m₂ ∧
          maps.Renewed t.schema.fields.keys now (.ofFields id fields)
            (expiryAfter now t.lifespan) (expiryAfter now o.stack.lifespan) m m₁ m₂) ∧
      (¬(maps.cells m now id).Accepted t.schema (.ofFields id fields) →
        ∃ e s₂, o.append now (some id) fresh fields s = (.error e, s₂) ∧
          v.Has sound now s₂ m) := by
  have happend : ∃ s₁, t.append now (some id) fresh fields s = (.ok (.ofFields id fields), s₁) ∧
      v.Has sound now s₁ (maps.appended (.ofFields id fields) (expiryAfter now t.lifespan) m) :=
    appendExpiring_done hv ht hnodup (expiryAfter now t.lifespan) (if_neg hid) hfields hintact h
  obtain ⟨s₁, happend, h₁⟩ := happend
  obtain ⟨hdone, hrefused⟩ := append_only_layer hv ho ht hnodup h fresh hid hfields hintact
  refine ⟨s₁, _, happend, h₁, fun haccepted => ?_, hrefused⟩
  obtain ⟨s₂, hwritten, h₂⟩ := hdone haccepted
  have hpatch : (Record.ofFields id fields).id = id := Record.id_ofFields id fields
  have hdeclared := Schema.declared_of_checkAll hfields
  refine ⟨s₂, _, hwritten, h₂, ?_⟩
  generalize Record.ofFields id fields = patch at hpatch hdeclared haccepted ⊢
  subst hpatch
  exact .of_accepted hnodup hdeclared hintact haccepted _ _

omit hv ho ht hnodup h

/-- Items that live for an hour. -/
def hourly : Layout Nat Site.MapId :=
  .named Layout.items.schema 3600 (fun number => "volume " ++ toString number) Prod.mk Prod.mk.inj

/-- A table of such items. -/
def hourlyItems : Table Site := hourly.table Layout.memoryVault.backend 0

/-- The table as the only layer of a stack. -/
def hourlyStack : TableStack Site := hourly.stack Layout.memoryVault.backend [0] 0 0

/-- The numbers of the items. -/
def hourlyNumbers : Backend Site := Layout.memoryVault.backend (0, "items#num")

/-- An item has got a number for a day. -/
def numbered : Site :=
  (hourlyItems.appendExpiring 0 (some "r") "" [("num", .integer 42)] 86400 untouched).2

/-- Now it gets a text. -/
def worded : List (String × Value) := [("str_val", .text "test")]

/-- **A field that is not named does not keep its expiry**: the table leaves the number its day,
the stack gives it the hour that the text has. -/
theorem append_renews_unnamed :
    (hourlyItems.append 0 (some "r") "" worded numbered).1.toOption = some (.ofFields "r" worded) ∧
      (hourlyStack.append 0 (some "r") "" worded numbered).1.toOption =
        some (.ofFields "r" worded) ∧
      (hourlyNumbers.expiry 0 "r"
        (hourlyItems.append 0 (some "r") "" worded numbered).2).1.toOption = some (some 86400) ∧
      (hourlyNumbers.expiry 0 "r"
        (hourlyStack.append 0 (some "r") "" worded numbered).2).1.toOption = some (some 3600) := by
  decide +kernel

/-- The maps in which the item has the number. -/
def numberedMaps : Site.MapId → ExpiringMap Bytes :=
  (hourly.maps 0).appended (.ofFields "r" [("num", .integer 42)]) 86400 fun _ => ExpiringMap.empty

theorem numbered_has : Layout.memoryVault.Has (Site.Sound (fun _ => .memory) fun _ => false) 0
    numbered numberedMaps := by
  have happend : ∃ s', hourlyItems.appendExpiring 0 (some "r") "" [("num", .integer 42)] 86400
      untouched = (.ok (.ofFields "r" [("num", .integer 42)]), s') ∧
      Layout.memoryVault.Has (Site.Sound (fun _ => .memory) fun _ => false) 0 s' numberedMaps :=
    appendExpiring_done (Site.vault_reliable _ _) (hourly.table_laidOn _ 0) (hourly.separate 0) 86400
      rfl rfl (fun _ _ => rfl) untouched_has
  obtain ⟨s', hs', hhas⟩ := happend
  have hnumbered : numbered = s' := congrArg Prod.snd hs'
  rwa [hnumbered]

/-- The stack keeps the number and lets it expire with the text. -/
theorem append_renewed_hourly :
    ∃ s₂ m₂, hourlyStack.append 0 (some "r") "" worded numbered =
        (.ok (.ofFields "r" worded), s₂) ∧
      Layout.memoryVault.Has (Site.Sound (fun _ => .memory) fun _ => false) 0 s₂ m₂ ∧
      ((hourly.maps 0).cells m₂ 0 "r").held "num" = some (.integer 42, 3600) := by
  have hheld : ((hourly.maps 0).cells numberedMaps 0 "r").held "num" =
      some (.integer 42, 86400) := by decide +kernel
  have hfields : hourlyItems.schema.checkAll (Record.ofFields "r" worded).fields.toList = .ok () :=
    rfl
  have hintact : ∀ f ∈ hourlyItems.schema.fields.keys,
      ((hourly.maps 0).cells numberedMaps 0 "r").garbled f = false := by decide +kernel
  have haccepted : ((hourly.maps 0).cells numberedMaps 0 "r").Accepted hourlyItems.schema
      (.ofFields "r" worded) := by
    intro f hf hunnamed value hvalue
    have hkeys : f ∈ ["num", "str_val"] := hf
    rcases List.mem_pair.1 hkeys with rfl | rfl
    · rw [Cells.field?_of_held hheld] at hvalue
      obtain rfl := Option.some.inj hvalue
      rfl
    · exact absurd hunnamed (by decide)
  obtain ⟨s₁, m₁, -, -, hdone, -⟩ := append_renewed (Site.vault_reliable _ _)
    (o := hourlyStack) ⟨rfl, rfl⟩ (hourly.table_laidOn _ 0) (hourly.separate 0) numbered_has ""
    (by decide) hfields hintact
  obtain ⟨s₂, m₂, happend, h₂, hrenewed⟩ := hdone haccepted
  refine ⟨s₂, m₂, happend, h₂, ?_⟩
  exact (hrenewed.renewed "num" (by decide) (by decide) _ _ hheld nofun).trans (by decide)

end Table

end LayeredStore
