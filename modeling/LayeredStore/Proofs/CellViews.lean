import LayeredStore.Proofs.TableLayout

/-! # What cells make up

`Table.Cells.view` reads one cell after another.  Where no cell is garbled it can be told at
once: the record has in every field the value of its cell (`Table.Cells.get?_record`), and its
expiry is the soonest of those of the cells (`Table.Cells.view_eq`).  One garbled cell spoils
the view (`Table.Cells.view_garbled`).
-/
namespace LayeredStore

open ExpiringMap

/-- A dictionary is empty just when nothing is found in it. -/
theorem Dictionary.isEmpty_iff {κ α : Type} [Ord κ] [Std.TransOrd κ] [Std.LawfulEqOrd κ]
    {d : Dictionary κ α} : d.isEmpty = true ↔ ∀ key, d.get? key = none := by
  constructor
  · intro hempty key
    cases hvalue : d.get? key with
    | none => rfl
    | some value =>
      have hmem := (get?_eq_some_iff d key value).1 hvalue
      rw [List.isEmpty_iff.1 hempty] at hmem
      cases hmem
  · intro hnone
    rw [isEmpty, List.isEmpty_iff, List.eq_nil_iff_forall_not_mem]
    rintro ⟨key, value⟩ hmem
    have hvalue := (get?_eq_some_iff d key value).2 hmem
    rw [hnone] at hvalue
    cases hvalue

namespace Table.Cells

variable (c : Cells) (fields : List String) (id : String)

/-- The value in the column of a field. -/
def field? (f : String) : Option Value := (c.column f).bind fun cell => Stored.ofBytes? cell.1

/-- The record that the cells make up. -/
def record : Record := ⟨id, .ofList (fields.filterMap fun f => (c.field? f).map (f, ·))⟩

/-- The expiries in the columns. -/
def expiries : List Int64 := fields.filterMap fun f => (c.column f).map Prod.snd

/-- The soonest expiry of the mark and the columns. -/
def soonest : Int64 := (c.expiries fields).foldl earliest c.markExpiry

/-- Whether there is a cell at all. -/
def occupied : Bool := c.mark?.isSome || fields.any fun f => (c.column f).isSome

/-- The cells that are left at a later time. -/
def later (time : Int64) : Cells :=
  ⟨c.mark?.filter fun cell => !isExpired cell.2 time,
    fun f => (c.column f).filter fun cell => !isExpired cell.2 time⟩

theorem get?_record (f : String) :
    (c.record fields id).fields.get? f = if f ∈ fields then c.field? f else none :=
  Dictionary.get?_ofList_filterMap c.field? fields f

/-- A field is seen with the value of its cell, whether there is a record or not. -/
theorem get?_seen (f : String) :
    (if c.occupied fields then some (c.record fields id) else none).bind
        (fun r => r.fields.get? f) = if f ∈ fields then c.field? f else none := by
  by_cases hoccupied : c.occupied fields = true
  · rw [if_pos hoccupied, Option.bind_some, get?_record]
  · rw [if_neg hoccupied, Option.bind_none]
    rw [Bool.not_eq_true, occupied, Bool.or_eq_false_iff, List.any_eq_false] at hoccupied
    split
    · next hf =>
      have hcolumn : c.column f = none := by simpa using hoccupied.2 f hf
      rw [field?, hcolumn, Option.bind_none]
    · rfl

variable {c fields}

/-- A garbled cell is one whose bytes are no value. -/
theorem garbled_eq (c : Cells) (f : String) :
    c.garbled f = (c.column f).any fun cell => (Stored.ofBytes? cell.1 : Option Value).isNone := by
  rw [garbled]
  rcases c.column f with _ | ⟨bytes, expiry⟩
  · rfl
  · exact Option.isNone_map

/-- A cell that is not garbled has a value. -/
theorem isSome_field? {f : String} (h : c.garbled f = false) :
    (c.field? f).isSome = (c.column f).isSome := by
  rw [garbled_eq] at h
  rw [field?]
  rcases hcolumn : c.column f with _ | ⟨bytes, expiry⟩
  · rfl
  · rw [hcolumn, Option.any_some, Option.isNone_eq_false_iff] at h
    exact h

/-- Cells of which none is garbled are gathered whole. -/
theorem gather_eq (h : ∀ f ∈ fields, c.garbled f = false) (start : Int64) :
    c.gather fields start =
      some (fields.filterMap fun f => (c.field? f).map (f, ·),
        (c.expiries fields).foldl earliest start) := by
  induction fields generalizing start with
  | nil => rfl
  | cons f rest ih =>
    have hrest := ih fun g hg => h g (List.mem_cons_of_mem f hg)
    have hvalue := isSome_field? (h f List.mem_cons_self)
    rw [gather, expiries, List.filterMap_cons, List.filterMap_cons]
    rcases hcolumn : c.column f with _ | ⟨bytes, expiry⟩
    · simp only [field?, hcolumn, Option.bind_none, Option.map_none]
      exact hrest start
    · rw [hcolumn, Option.isSome_some, Option.isSome_iff_exists] at hvalue
      obtain ⟨value, hvalue⟩ := hvalue
      have hread : Stored.ofBytes? bytes = some value := by rwa [field?, hcolumn] at hvalue
      simp only [hvalue, hread, Option.bind_some, Option.map_some, hrest, List.foldl_cons]
      rfl

/-- One garbled cell spoils them all. -/
theorem gather_garbled {f : String} (hf : f ∈ fields) (h : c.garbled f = true) (start : Int64) :
    c.gather fields start = none := by
  induction fields generalizing start with
  | nil => cases hf
  | cons g rest ih =>
    rw [gather]
    rcases List.mem_cons.1 hf with rfl | hf
    · rw [garbled_eq] at h
      rcases hcolumn : c.column f with _ | ⟨bytes, expiry⟩ <;> rw [hcolumn] at h
      · cases h
      · rw [Option.any_some, Option.isNone_iff_eq_none] at h
        simp only [h, Option.bind_none]
    · rcases c.column g with _ | ⟨bytes, expiry⟩
      · exact ih hf start
      · simp only [ih hf, Option.map_none]
        cases (Stored.ofBytes? bytes : Option Value) <;> rfl

theorem view_garbled {f : String} (hf : f ∈ fields) (h : c.garbled f = true) :
    c.view fields id = none := by
  rw [view, gather_garbled hf h, Option.map_none]

/-- The record is blank just when there is no cell in a column. -/
theorem isBlank_record (h : ∀ f ∈ fields, c.garbled f = false) :
    (!(c.record fields id).isBlank) = fields.any fun f => (c.column f).isSome := by
  rw [Bool.eq_iff_iff, Bool.not_eq_true', ← Bool.not_eq_true, Record.isBlank,
    Dictionary.isEmpty_iff, List.any_eq_true]
  simp only [get?_record, not_forall]
  constructor
  · rintro ⟨f, hf⟩
    by_cases hmem : f ∈ fields
    · rw [if_pos hmem, ← ne_eq, ← Option.isSome_iff_ne_none, isSome_field? (h f hmem)] at hf
      exact ⟨f, hmem, hf⟩
    · exact absurd (if_neg hmem) hf
  · rintro ⟨f, hmem, hf⟩
    refine ⟨f, ?_⟩
    rwa [if_pos hmem, ← ne_eq, ← Option.isSome_iff_ne_none, isSome_field? (h f hmem)]

/-- **What cells make up** where none is garbled. -/
theorem view_eq (h : ∀ f ∈ fields, c.garbled f = false) :
    c.view fields id =
      some (if c.occupied fields then some (c.record fields id, c.soonest fields) else none) := by
  have hblank := isBlank_record id h
  rw [record] at hblank
  rw [view, gather_eq h, Option.map_some]
  dsimp only
  rw [hblank]
  rfl

/-- The same columns make up the same record. -/
theorem record_congr {d : Cells} (h : ∀ f ∈ fields, c.column f = d.column f) :
    c.record fields id = d.record fields id := by
  have hfields : (c.record fields id).fields = (d.record fields id).fields := by
    refine Dictionary.ext_get? fun f => ?_
    rw [get?_record, get?_record]
    by_cases hf : f ∈ fields
    · rw [if_pos hf, if_pos hf, field?, field?, h f hf]
    · rw [if_neg hf, if_neg hf]
  exact congrArg (Record.mk id) hfields

/-- A view that is answered has no garbled cell. -/
theorem garbled_of_view {e? : Option (Record × Int64)} (h : c.view fields id = some e?) :
    ∀ f ∈ fields, c.garbled f = false := by
  intro f hf
  by_contra hgarbled
  rw [view_garbled id hf (by simpa using hgarbled)] at h
  cases h

/-- A record that is seen is the one that the cells make up. -/
theorem of_view {r : Record} {expiry : Int64} (h : c.view fields id = some (some (r, expiry))) :
    c.occupied fields = true ∧ r = c.record fields id ∧ expiry = c.soonest fields := by
  rw [view_eq id (garbled_of_view id h)] at h
  split at h
  · next hoccupied =>
    obtain ⟨rfl, rfl⟩ := Prod.mk.inj (Option.some.inj (Option.some.inj h))
    exact ⟨hoccupied, rfl, rfl⟩
  · cases h

/-- Cells do not become garbled by waiting. -/
theorem garbled_later {f : String} (h : c.garbled f = false) (time : Int64) :
    (c.later time).garbled f = false := by
  rw [garbled_eq, Option.any_eq_false] at h ⊢
  intro cell hcell
  exact h cell (Option.filter_eq_some_iff.1 hcell).1

theorem Alike.later {d : Cells} (h : Alike fields c d) (time : Int64) :
    Alike fields (c.later time) (d.later time) where
  mark := congrArg (Option.filter _) h.mark
  column f hf := congrArg (Option.filter _) (h.column f hf)

end Table.Cells

/-- Cells at a later time are those that are left. -/
theorem Table.Maps.cells_later {ι : Type} {now time : Int64} (h : now ≤ time) (maps : Maps ι)
    (m : ι → ExpiringMap Bytes) (id : String) :
    maps.cells m time id = (maps.cells m now id).later time := by
  simp only [cells, Cells.later, live?_later h]

end LayeredStore
