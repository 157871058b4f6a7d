import LayeredStore.Proofs.StoredValues
import LayeredStore.Proofs.Vault
import LayeredStore.Table

/-! # The cells of a record

A table over a reliable vault sees of an identifier its live cells: the mark in the index
and one cell in each column (`Table.Cells`).  `Cells.view` is the record they make up, with
the soonest of their expiries, or nothing, or a failure where the bytes of a cell are no
value; and that is what the table reads, without changing a map
(`Table.getWithExpiry_yields`, `Table.get_yields`).

The vault may refuse writes on some maps (`Vault.refusing`); reads do not notice.
-/
namespace LayeredStore

open ExpiringMap

/-- What an action comes to, its error aside, and what holds of the state afterwards. -/
def Yields {σ ε α : Type} (holds : σ → Prop) (result : Except ε α × σ) (a? : Option α) : Prop :=
  result.1.toOption = a? ∧ holds result.2

namespace Yields

variable {σ ε ε' α β : Type} {holds middle : σ → Prop}

theorem pure {a : α} {s : σ} (h : holds s) : Yields holds ((pure a : Action σ ε α) s) (some a) :=
  ⟨rfl, h⟩

theorem ofExcept {x : Except ε α} {s : σ} (h : holds s) :
    Yields holds (Action.ofExcept x s) x.toOption := ⟨rfl, h⟩

theorem mapError {x : Action σ ε α} {s : σ} {a? : Option α} (h : Yields holds (x s) a?)
    (f : ε → ε') : Yields holds (x.mapError f s) a? := by
  unfold Action.mapError
  generalize x s = result at h ⊢
  obtain ⟨_ | a, t⟩ := result <;> exact h

/-- An action goes on where the first part came to something; elsewhere what it left must do. -/
theorem bind {x : Action σ ε α} {f : α → Action σ ε β} {s : σ} {a? : Option α} {g : α → Option β}
    (h : Yields middle (x s) a?)
    (hf : ∀ a t, a? = some a → middle t → Yields holds (f a t) (g a))
    (hnone : a? = none → ∀ t, middle t → holds t) : Yields holds ((x >>= f) s) (a?.bind g) := by
  rw [Action.bind_apply]
  generalize x s = result at h ⊢
  obtain ⟨e | a, t⟩ := result
  · obtain ⟨rfl, ht⟩ := h
    exact ⟨rfl, hnone rfl t ht⟩
  · obtain ⟨rfl, ht⟩ := h
    exact hf a t rfl ht

/-- An action that keeps what holds. -/
theorem bind_same {x : Action σ ε α} {f : α → Action σ ε β} {s : σ} {a? : Option α}
    {g : α → Option β} (h : Yields holds (x s) a?)
    (hf : ∀ a t, holds t → Yields holds (f a t) (g a)) :
    Yields holds ((x >>= f) s) (a?.bind g) :=
  h.bind (fun a t _ => hf a t) fun _ _ => id

theorem ok {result : Except ε α × σ} {a : α} (h : Yields holds result (some a)) :
    ∃ s, result = (.ok a, s) ∧ holds s := by
  obtain ⟨_ | b, s⟩ := result
  · cases h.1
  · obtain rfl := Option.some.inj h.1
    exact ⟨s, rfl, h.2⟩

/-- An action ends in a value just when it comes to it. -/
theorem eq_ok_iff {result : Except ε α × σ} {a? : Option α} (h : Yields holds result a?) (a : α) :
    result.1 = .ok a ↔ a? = some a := by
  obtain ⟨_ | b, s⟩ := result <;> obtain ⟨rfl, -⟩ := h <;> simp [Except.toOption]

theorem error {result : Except ε α × σ} (h : Yields holds result none) :
    ∃ e s, result = (.error e, s) ∧ holds s := by
  obtain ⟨e | b, s⟩ := result
  · exact ⟨e, s, rfl, h.2⟩
  · cases h.1

end Yields

namespace Table

/-- The maps of a table among those of a vault. -/
structure Maps (ι : Type) where
  /-- The index. -/
  index : ι
  /-- The column of a field. -/
  column : String → ι

/-- The live cells of an identifier. -/
structure Cells where
  /-- The cell in the index. -/
  mark? : Option (Bytes × Int64)
  /-- The cell in the column of a field. -/
  column : String → Option (Bytes × Int64)

/-- The live cells of an identifier in the maps of a table. -/
def Maps.cells {ι : Type} (maps : Maps ι) (m : ι → ExpiringMap Bytes) (now : Int64)
    (id : String) : Cells :=
  ⟨(m maps.index).live? now id, fun f => (m (maps.column f)).live? now id⟩

namespace Cells

/-- The value in a cell, if there is one and its bytes are a value. -/
def value? : Option (Bytes × Int64) → Option (Option Value)
  | none => some none
  | some (bytes, _) => (Stored.ofBytes? bytes).map some

/-- The values in the cells of fields, with the soonest of their expiries and a given one. -/
def gather (c : Cells) : List String → Int64 → Option (List (String × Value) × Int64)
  | [], soonest => some ([], soonest)
  | f :: rest, soonest =>
    match c.column f with
    | none => c.gather rest soonest
    | some (bytes, expiry) =>
      (Stored.ofBytes? bytes).bind fun value =>
        (c.gather rest (earliest soonest expiry)).map fun (fields, soonest) =>
          ((f, value) :: fields, soonest)

/-- The expiry of the mark. -/
def markExpiry (c : Cells) : Int64 :=
  match c.mark? with
  | some (_, expiry) => expiry
  | none => neverExpires

/-- The record that the cells make up, with its expiry; `none` where a cell is no value. -/
def view (c : Cells) (fields : List String) (id : String) : Option (Option (Record × Int64)) :=
  (c.gather fields c.markExpiry).map fun (values, soonest) =>
    let record : Record := ⟨id, .ofList values⟩
    if c.mark?.isSome || !record.isBlank then some (record, soonest) else none

end Cells

end Table

/-! ### Reading cells -/

section

variable {σ ι : Type} [PolicyKeeper σ] [DecidableEq ι] {v : Vault σ ι} {sound : σ → Prop}
  (hv : v.Reliable sound) (refusal : ι → Option StorageFailure) {now : Int64} {s : σ}
  {m : ι → ExpiringMap Bytes}

include hv

theorem Vault.Reliable.get_yields (h : v.Has sound now s m) (i : ι) (id : String) :
    Yields (v.Has sound now · m) (((v.refusing refusal).backend i).get now id s)
      (some (((m i).live? now id).map Prod.fst)) := by
  obtain ⟨a, s', hok, hanswer, hafter⟩ := hv.perform h i (.get id)
  rw [after, Function.update_eq_self] at hafter
  show Yields _ ((v.backend i).perform (.get id) now s) _
  rw [hok]
  exact ⟨congrArg some hanswer, hafter⟩

theorem Vault.Reliable.expiry_yields (h : v.Has sound now s m) (i : ι) (id : String) :
    Yields (v.Has sound now · m) (((v.refusing refusal).backend i).expiry now id s)
      (some (((m i).live? now id).map Prod.snd)) := by
  obtain ⟨a, s', hok, hanswer, hafter⟩ := hv.perform h i (.expiry id)
  rw [after, Function.update_eq_self] at hafter
  show Yields _ ((v.backend i).perform (.expiry id) now s) _
  rw [hok]
  exact ⟨congrArg some hanswer, hafter⟩

omit [PolicyKeeper σ] [DecidableEq ι] hv in
theorem Table.decodeAnswer_toOption (b : Backend σ) (id : String)
    (cell? : Option (Bytes × Int64)) :
    ((column b).decodeAnswer id (cell?.map Prod.fst)).toOption = Cells.value? cell? := by
  rcases cell? with _ | ⟨bytes, expiry⟩
  · rfl
  · simp only [Cells.value?, Option.map_some, TypedMap.decodeAnswer, TypedMap.decode]
    cases (Stored.ofBytes? bytes : Option Value) <;> rfl

/-- A typed read gives the value of the live cell. -/
theorem Table.column_get_yields (h : v.Has sound now s m) (i : ι) (id : String) :
    Yields (v.Has sound now · m)
      ((Table.column ((v.refusing refusal).backend i)).get now id s)
      (Table.Cells.value? ((m i).live? now id)) := by
  have hget := hv.get_yields refusal h i id
  have hdecode := hget.bind_same fun value? t ht => Yields.ofExcept
    (x := (column ((v.refusing refusal).backend i)).decodeAnswer id value?) ht
  rw [Option.bind_some, decodeAnswer_toOption] at hdecode
  exact hdecode

namespace Table

omit [PolicyKeeper σ] [DecidableEq ι] hv in
/-- Records are looked up one after another: where a get answers with what is there and leaves
it, that is what is found. -/
theorem materialize_of_get {t : Table σ} {holds : σ → Prop} {found? : String → Option Record}
    (hget : ∀ id s, holds s → ∃ u, t.get now id s = (.ok (found? id), u) ∧ holds u) (h : holds s)
    (ids : List String) :
    ∃ u, t.materialize now ids s = (.ok (ids.filterMap found?), u) ∧ holds u := by
  induction ids generalizing s with
  | nil => exact ⟨s, rfl, h⟩
  | cons id rest ih =>
    obtain ⟨u, hu, hhas⟩ := hget id s h
    obtain ⟨w, hw, hfinal⟩ := ih hhas
    refine ⟨w, ?_, hfinal⟩
    rw [materialize, Action.bind_ok hu, Action.bind_ok hw, List.filterMap_cons]
    cases found? id <;> rfl

variable {maps : Maps ι} {id : String}

theorem readExpiringFields_yields (h : v.Has sound now s m) (fields : List String)
    (soonest : Int64) :
    Yields (v.Has sound now · m)
      (readExpiringFields now id soonest
        (fields.map fun f => (f, (v.refusing refusal).backend (maps.column f))) s)
      ((maps.cells m now id).gather fields soonest) := by
  induction fields generalizing s soonest with
  | nil => exact .pure h
  | cons f rest ih =>
    have hget := (column_get_yields hv refusal h (maps.column f) id).mapError StoreError.storage
    -- Value and expiry are two requests, so the cell is taken apart in the order they are made.
    have hcell : (maps.cells m now id).gather (f :: rest) soonest =
        (Cells.value? ((m (maps.column f)).live? now id)).bind fun value? =>
          value?.elim ((maps.cells m now id).gather rest soonest) fun value =>
            (some (((m (maps.column f)).live? now id).map Prod.snd)).bind fun expiry? =>
              expiry?.elim ((maps.cells m now id).gather rest soonest) fun expiry =>
                ((maps.cells m now id).gather rest (earliest soonest expiry)).bind
                  fun found => some ((f, value) :: found.1, found.2) := by
      simp only [Cells.gather, Maps.cells]
      rcases (m (maps.column f)).live? now id with _ | ⟨bytes, expiry⟩
      · rfl
      · simp only [Cells.value?, Option.map_some, Option.bind_some]
        cases (Stored.ofBytes? bytes : Option Value) with
        | none => rfl
        | some value =>
          simp only [Option.bind_some, Option.map_some, Option.elim_some]
          generalize Cells.gather _ rest _ = gathered
          cases gathered <;> rfl
    rw [hcell]
    refine hget.bind_same fun value? t ht => ?_
    cases value? with
    | none => exact ih ht soonest
    | some value =>
      rw [Option.elim_some]
      refine ((hv.expiry_yields refusal ht (maps.column f) id).mapError _).bind_same
        fun expiry? u hu => ?_
      cases expiry? with
      | none => exact ih hu soonest
      | some expiry =>
        rw [Option.elim_some]
        refine (ih hu (earliest soonest expiry)).bind_same fun found w hw => ?_
        exact .pure hw

theorem readFields_yields (h : v.Has sound now s m) (fields : List String) (soonest : Int64) :
    Yields (v.Has sound now · m)
      (readFields now id (fields.map fun f => (f, (v.refusing refusal).backend (maps.column f))) s)
      (((maps.cells m now id).gather fields soonest).map Prod.fst) := by
  induction fields generalizing s soonest with
  | nil => exact .pure h
  | cons f rest ih =>
    have hget := (column_get_yields hv refusal h (maps.column f) id).mapError StoreError.storage
    rcases hlive : (m (maps.column f)).live? now id with _ | ⟨bytes, expiry⟩
    · have hcell : ((maps.cells m now id).gather (f :: rest) soonest).map Prod.fst =
          (some (none : Option Value)).bind fun _ =>
            (((maps.cells m now id).gather rest soonest).map Prod.fst).bind some := by
        simp [Cells.gather, Maps.cells, hlive]
      rw [hcell]
      rw [hlive] at hget
      refine hget.bind ?_ nofun
      rintro value? t hvalue ht
      obtain rfl := Option.some.inj hvalue
      exact (ih ht soonest).bind_same fun values u hu => .pure hu
    · have hcell : ((maps.cells m now id).gather (f :: rest) soonest).map Prod.fst =
          ((Stored.ofBytes? bytes).map some).bind fun value? =>
            (((maps.cells m now id).gather rest (earliest soonest expiry)).map Prod.fst).bind
              fun values => some (value?.elim values fun value => (f, value) :: values) := by
        simp only [Cells.gather, Maps.cells, hlive]
        cases (Stored.ofBytes? bytes : Option Value) with
        | none => rfl
        | some value =>
          simp only [Option.bind_some, Option.map_some]
          generalize Cells.gather _ rest _ = gathered
          cases gathered <;> rfl
      rw [hcell]
      rw [hlive] at hget
      refine hget.bind_same fun value? t ht => ?_
      refine (ih ht (earliest soonest expiry)).bind_same fun values u hu => ?_
      cases value? <;> exact .pure hu

/-- The maps of the table are those of a family of backends. -/
structure LaidOn (t : Table σ) (b : ι → Backend σ) (maps : Maps ι) : Prop where
  /-- The index is one of them. -/
  index : t.index = b maps.index
  /-- There is a column for every declared field. -/
  columns : t.columns.toList = t.schema.fields.keys.map fun f => (f, b (maps.column f))

variable {t : Table σ}

/-- **A table reads the record that its cells make up**, with its expiry. -/
theorem getWithExpiry_yields (ht : t.LaidOn (v.refusing refusal).backend maps)
    (h : v.Has sound now s m) (id : String) :
    Yields (v.Has sound now · m) (t.getWithExpiry now id s)
      ((maps.cells m now id).view t.schema.fields.keys id) := by
  have hknown := (hv.expiry_yields refusal h maps.index id).mapError StoreError.storage
  -- The mark is combined with an expiry that never comes, which is no change.
  have hmark : (maps.cells m now id).markExpiry =
      (((m maps.index).live? now id).map Prod.snd).elim neverExpires (earliest neverExpires) := by
    unfold Cells.markExpiry Maps.cells
    rcases (m maps.index).live? now id with _ | ⟨bytes, expiry⟩
    · rfl
    · exact (earliest_never expiry).symm
  have hsome : (maps.cells m now id).mark?.isSome =
      (((m maps.index).live? now id).map Prod.snd).isSome := by
    rw [Option.isSome_map]
    rfl
  unfold getWithExpiry
  rw [ht.index, ht.columns, Cells.view, hmark, hsome]
  generalize ((m maps.index).live? now id).map Prod.snd = known? at hknown ⊢
  rw [Option.map_eq_bind]
  refine hknown.bind (g := fun known? => Option.bind _ _) ?_ nofun
  rintro known? u hknown? hu
  obtain rfl := Option.some.inj hknown?
  cases known? <;>
    exact (readExpiringFields_yields hv refusal hu _ _).bind_same fun found w hw => .pure hw

/-- A table reads the same record without its expiry. -/
theorem get_yields (ht : t.LaidOn (v.refusing refusal).backend maps) (h : v.Has sound now s m)
    (id : String) :
    Yields (v.Has sound now · m) (t.get now id s)
      (((maps.cells m now id).view t.schema.fields.keys id).map (Option.map Prod.fst)) := by
  have hmarker := (hv.get_yields refusal h maps.index id).mapError StoreError.storage
  have hview : ((maps.cells m now id).view t.schema.fields.keys id).map (Option.map Prod.fst) =
      (some (((m maps.index).live? now id).map Prod.fst)).bind fun marker? =>
        (((maps.cells m now id).gather t.schema.fields.keys (maps.cells m now id).markExpiry).map
          Prod.fst).bind fun values =>
            let record : Record := ⟨id, .ofList values⟩
            some (if marker?.isSome || !record.isBlank then some record else none) := by
    have hsome : (maps.cells m now id).mark?.isSome =
        (((m maps.index).live? now id).map Prod.fst).isSome := by
      rw [Option.isSome_map]
      rfl
    rw [Option.bind_some, Cells.view, hsome]
    generalize Cells.gather _ _ _ = gathered
    rcases gathered with _ | ⟨values, soonest⟩
    · rfl
    · simp only [Option.map_some, Option.bind_some]
      split <;> rfl
  rw [hview]
  unfold get
  rw [ht.index, ht.columns]
  refine hmarker.bind ?_ nofun
  rintro marker? u hmarker? hu
  obtain rfl := Option.some.inj hmarker?
  exact (readFields_yields hv refusal hu _ _).bind_same fun values w hw => .pure hw

end Table

end

end LayeredStore
