import LayeredStore.Proofs.CellViews
import LayeredStore.Proofs.Frames
import LayeredStore.Proofs.Population

/-! # How long a copy lives

A record that a get found in one table is copied into the tables above with one expiry, the
soonest of those of its cells.  A negative expiry never comes, but it is the soonest of all
(`earliest_neg_iff`), so next to it the expiry of a column is lost: `Table.Cells.Masked`.
Then the copy outlives its source, and otherwise it does not (`Layout.get_copies_iff`),
whatever is asked of the stack for other identifiers in between.
-/
namespace LayeredStore

open ExpiringMap

/-! ### The soonest of several expiries -/

/-- A negative expiry is sooner than all that come. -/
theorem earliest_neg_iff {a b : Int64} : earliest a b < 0 ↔ a < 0 ∨ b < 0 := by
  unfold earliest neverExpires
  split
  · next ha =>
    subst ha
    simp
  · split
    · next hb =>
      subst hb
      simp
    · split <;> grind

/-- Of expiries that are not negative, the soonest has passed just when one of them has. -/
theorem isExpired_earliest {a b : Int64} (ha : 0 ≤ a) (hb : 0 ≤ b) (time : Int64) :
    isExpired (earliest a b) time = (isExpired a time || isExpired b time) := by
  unfold earliest isExpired neverExpires
  split
  · next h =>
    subst h
    simp
  · split
    · next h =>
      subst h
      simp
    · split <;> grind

theorem foldl_earliest_neg_iff {start : Int64} {expiries : List Int64} :
    expiries.foldl earliest start < 0 ↔ start < 0 ∨ ∃ e ∈ expiries, e < 0 := by
  induction expiries generalizing start with
  | nil => simp
  | cons e rest ih =>
    rw [List.foldl_cons, ih, earliest_neg_iff, or_assoc]
    simp only [List.mem_cons, exists_eq_or_imp]

theorem isExpired_foldl_earliest {start : Int64} {expiries : List Int64} (hstart : 0 ≤ start)
    (h : ∀ e ∈ expiries, 0 ≤ e) (time : Int64) :
    isExpired (expiries.foldl earliest start) time =
      (isExpired start time || expiries.any (isExpired · time)) := by
  induction expiries generalizing start with
  | nil => simp
  | cons e rest ih =>
    have he := h e List.mem_cons_self
    have hsoonest : 0 ≤ earliest start e := by
      rw [← Int64.not_lt, earliest_neg_iff]
      rintro (hneg | hneg)
      · exact Int64.not_lt.2 hstart hneg
      · exact Int64.not_lt.2 he hneg
    rw [List.foldl_cons, ih hsoonest fun d hd => h d (List.mem_cons_of_mem e hd),
      isExpired_earliest hstart he, Bool.or_assoc, List.any_cons]

/-- What is not in the future never expires, or is no expiry. -/
theorem not_isExpired_of_not_pos {e : Int64} (h : ¬0 < e) (time : Int64) :
    isExpired e time = false := by
  simp [isExpired, neverExpires, h]

/-! ### Cells as time goes by -/

namespace Table.Cells

variable {c : Cells} {fields : List String} {id : String} {r : Record} {expiry now : Int64}

/-- A column expires some day, but a negative expiry of another cell hides it. -/
def Masked (c : Cells) (fields : List String) : Prop :=
  (c.markExpiry < 0 ∨ ∃ e ∈ c.expiries fields, e < 0) ∧ ∃ e ∈ c.expiries fields, 0 < e

theorem mem_expiries {e : Int64} :
    e ∈ c.expiries fields ↔ ∃ f ∈ fields, ∃ cell ∈ c.column f, cell.2 = e := by
  simp only [expiries, List.mem_filterMap, Option.map_eq_some_iff, Option.mem_def]

/-- There are cells just if there is a mark or a column has one. -/
theorem occupied_iff : c.occupied fields = true ↔ c.mark?.isSome = true ∨ c.expiries fields ≠ [] := by
  rw [occupied, Bool.or_eq_true_iff, List.any_eq_true]
  refine or_congr_right ⟨?_, fun hne => ?_⟩
  · rintro ⟨f, hf, hsome⟩
    obtain ⟨cell, hcell⟩ := Option.isSome_iff_exists.1 hsome
    exact List.ne_nil_of_mem (mem_expiries.2 ⟨f, hf, cell, hcell, rfl⟩)
  · obtain ⟨e, he⟩ := List.exists_mem_of_ne_nil _ hne
    obtain ⟨f, hf, cell, hcell, -⟩ := mem_expiries.1 he
    exact ⟨f, hf, Option.isSome_iff_exists.2 ⟨cell, hcell⟩⟩

theorem mem_expiries_later {time e : Int64} :
    e ∈ (c.later time).expiries fields ↔ e ∈ c.expiries fields ∧ isExpired e time = false := by
  simp only [mem_expiries, later, Option.mem_def, Option.filter_eq_some_iff]
  constructor
  · rintro ⟨f, hf, cell, ⟨hcell, hlive⟩, rfl⟩
    exact ⟨⟨f, hf, cell, hcell, rfl⟩, by simpa using hlive⟩
  · rintro ⟨⟨f, hf, cell, hcell, rfl⟩, hlive⟩
    exact ⟨f, hf, cell, ⟨hcell, by simpa using hlive⟩, rfl⟩

theorem isSome_mark_later (time : Int64) :
    (c.later time).mark?.isSome = (c.mark?.isSome && !isExpired c.markExpiry time) := by
  show (c.mark?.filter fun cell => !isExpired cell.2 time).isSome = _
  rw [markExpiry]
  rcases c.mark? with _ | cell
  · rfl
  · rw [Option.filter_some]
    cases isExpired cell.2 time <;> rfl

/-- A record keeps its fields while none of its columns has expired. -/
theorem record_later_iff (id : String) (hgarbled : ∀ f ∈ fields, c.garbled f = false) {time : Int64} :
    (c.later time).record fields id = c.record fields id ↔
      ∀ e ∈ c.expiries fields, isExpired e time = false := by
  constructor
  · intro hrecord e he
    obtain ⟨f, hf, cell, hcell, rfl⟩ := mem_expiries.1 he
    have hfield : (c.later time).field? f = c.field? f := by
      have hget := congrArg (·.fields.get? f) hrecord
      simpa only [get?_record, if_pos hf] using hget
    have hsome := isSome_field? (hgarbled f hf)
    rw [← hfield, isSome_field? (garbled_later (hgarbled f hf) time), hcell] at hsome
    obtain ⟨left, hleft⟩ := Option.isSome_iff_exists.1 hsome
    obtain ⟨hold, hlive⟩ := Option.filter_eq_some_iff.1 hleft
    obtain rfl : cell = left := Option.some.inj (hcell.symm.trans hold)
    simpa using hlive
  · intro hlive
    refine record_congr id fun f hf => ?_
    show (c.column f).filter _ = c.column f
    rcases hcell : c.column f with _ | cell
    · rfl
    · have hkept := hlive cell.2 (mem_expiries.2 ⟨f, hf, cell, hcell, rfl⟩)
      exact Option.filter_some_pos (by simp [hkept])

/-- What is left of a record is all of it while none of its columns has expired. -/
theorem view_later_iff (hview : c.view fields id = some (some (r, expiry))) (time : Int64) :
    ((c.later time).view fields id).map (Option.map Prod.fst) = some (some r) ↔
      (∀ e ∈ c.expiries fields, isExpired e time = false) ∧
        (c.expiries fields ≠ [] ∨ isExpired c.markExpiry time = false) := by
  have hgarbled := garbled_of_view id hview
  obtain ⟨hoccupied, rfl, -⟩ := of_view id hview
  rw [view_eq id fun f hf => garbled_later (hgarbled f hf) time, Option.map_some,
    ← record_later_iff id hgarbled]
  have hshown : ∀ left : Bool, some ((if left then some ((c.later time).record fields id,
      (c.later time).soonest fields) else none).map Prod.fst) = some (some (c.record fields id)) ↔
      (c.later time).record fields id = c.record fields id ∧ left = true := by
    intro left
    cases left <;> simp
  rw [hshown]
  refine and_congr_right fun hrecord => ?_
  have hlive := (record_later_iff id hgarbled).1 hrecord
  have hexpiries : (c.later time).expiries fields ≠ [] ↔ c.expiries fields ≠ [] := by
    simp only [ne_eq, List.eq_nil_iff_forall_not_mem, not_forall, not_not]
    exact exists_congr fun e => mem_expiries_later.trans (and_iff_left_of_imp (hlive e))
  rw [occupied_iff, hexpiries, isSome_mark_later]
  rw [occupied_iff] at hoccupied
  by_cases hne : c.expiries fields = []
  · simp only [hne, ne_eq, not_true_eq_false, or_false, false_or] at hoccupied ⊢
    simp [hoccupied]
  · simp [hne]

/-- **When cells outlast their soonest expiry**: unless a negative one hides another. -/
theorem outlasts_iff (hview : c.view fields id = some (some (r, expiry)))
    (hlive : ∀ e ∈ c.expiries fields, isExpired e now = false) :
    (∀ time, now ≤ time → isExpired expiry time = false →
        ((c.later time).view fields id).map (Option.map Prod.fst) = some (some r)) ↔
      ¬c.Masked fields := by
  obtain ⟨-, -, hsoonest⟩ := of_view id hview
  constructor
  · rintro hall ⟨hneg, e, he, hpos⟩
    have hnever : expiry < 0 := by
      rw [hsoonest, soonest, foldl_earliest_neg_iff]
      exact hneg
    have hlate : now ≤ e := by
      have hnot := hlive e he
      simp only [isExpired, neverExpires, hpos, decide_true, Bool.true_and,
        decide_eq_false_iff_not, Int64.not_le] at hnot
      exact Int64.le_of_lt hnot
    have hkept : isExpired expiry e = false :=
      not_isExpired_of_not_pos (Int64.not_lt.2 (Int64.le_of_lt hnever)) e
    have hdead : isExpired e e = true := by simp [isExpired, neverExpires, hpos]
    obtain ⟨hcolumns, -⟩ := (view_later_iff hview e).1 (hall e hlate hkept)
    rw [hcolumns e he] at hdead
    cases hdead
  · intro hmasked time hle hkept
    rw [view_later_iff hview]
    by_cases hneg : c.markExpiry < 0 ∨ ∃ e ∈ c.expiries fields, e < 0
    · have hcolumns : ∀ e ∈ c.expiries fields, isExpired e time = false := fun e he =>
        not_isExpired_of_not_pos (fun hpos => hmasked ⟨hneg, e, he, hpos⟩) time
      refine ⟨hcolumns, ?_⟩
      by_cases hempty : c.expiries fields = []
      · rcases hneg with hmark | ⟨e, he, -⟩
        · right
          exact not_isExpired_of_not_pos (Int64.not_lt.2 (Int64.le_of_lt hmark)) time
        · rw [hempty] at he
          cases he
      · exact .inl hempty
    · obtain ⟨hmark, hcolumns⟩ := not_or.1 hneg
      rw [hsoonest, soonest, isExpired_foldl_earliest (Int64.not_lt.1 hmark)
        (fun e he => Int64.not_lt.1 fun hlt => hcolumns ⟨e, he, hlt⟩),
        Bool.or_eq_false_iff, List.any_eq_false] at hkept
      exact ⟨fun e he => by simpa using hkept.2 e he, .inr hkept.1⟩

/-- All cells have one expiry. -/
structure Stamped (c : Cells) (fields : List String) (expiry : Int64) : Prop where
  mark : ∀ cell ∈ c.mark?, cell.2 = expiry
  column : ∀ f ∈ fields, ∀ cell ∈ c.column f, cell.2 = expiry

/-- Cells of one expiry are there whole until it has passed, and then gone. -/
theorem Stamped.view_later (h : c.Stamped fields expiry) (time : Int64) :
    (c.later time).view fields id =
      if isExpired expiry time then some none else c.view fields id := by
  have hfilter : ∀ cell? : Option (Bytes × Int64), (∀ cell ∈ cell?, cell.2 = expiry) →
      cell?.filter (fun cell => !isExpired cell.2 time) =
        if isExpired expiry time then none else cell? := by
    rintro (_ | cell) hcell
    · simp
    · rw [Option.filter_some, hcell cell rfl]
      cases isExpired expiry time <;> rfl
  split
  · next hdead =>
    refine view_none ?_ (fun f hf => ?_) id
    · exact (hfilter _ h.mark).trans (if_pos hdead)
    · exact (hfilter _ (h.column f hf)).trans (if_pos hdead)
  · next hlive =>
    refine Alike.view ⟨?_, fun f hf => ?_⟩ id
    · exact (hfilter _ h.mark).trans (if_neg hlive)
    · exact (hfilter _ (h.column f hf)).trans (if_neg hlive)

/-- An identifier of which nothing is seen has no cells. -/
theorem eq_none_of_view (h : c.view fields id = some none) :
    c.mark? = none ∧ ∀ f ∈ fields, c.column f = none := by
  rw [view_eq id (garbled_of_view id h)] at h
  split at h
  · cases h
  · next hoccupied =>
    rw [Bool.not_eq_true, occupied, Bool.or_eq_false_iff, List.any_eq_false] at hoccupied
    obtain ⟨hmark, hcolumn⟩ := hoccupied
    exact ⟨by simpa using hmark, fun f hf => by simpa using hcolumn f hf⟩

end Table.Cells

/-! ### What requests for other identifiers leave -/

/-- A request deletes and changes nothing that is stored under a key. -/
def Request.Spares (id : String) : Request → Prop
  | .put key _ _ | .remove key | .setExpiry key _ => key ≠ id
  | .get _ | .expiry _ | .keys _ => True
  | .upkeep verb => verb ≠ .teardown ∧ verb ≠ .clear

/-- A request to a stack of tables is not about an identifier. -/
def RecordRequest.Spares (id : String) (r : RecordRequest) : Prop := ∀ q, r.Makes q → q.Spares id

theorem ExpiringMap.after_of_spares {m : ExpiringMap Bytes} {now : Int64} {id : String}
    {r : Request} (h : r.Spares id) : m.after now r id = m id := by
  have hset : ∀ {key : String} (new? : Option (Bytes × Int64)), key ≠ id →
      m.set key new? id = m id := by
    intro key new? hkey
    show Function.update m key new? id = m id
    exact Function.update_of_ne (Ne.symm hkey) new? m
  cases r with
  | get | expiry | keys => rfl
  | put | remove => exact hset _ h
  | setExpiry key expiry =>
    cases hlive : m.live? now key with
    | none => simp only [after, hlive]
    | some e => simp only [after, hlive, hset _ h]
  | upkeep verb =>
    cases verb with
    | setup | maintenance | incremental => rfl
    | teardown => exact absurd rfl h.1
    | clear => exact absurd rfl h.2

/-- No request of a reliable vault makes a state unsound. -/
theorem Vault.Reliable.keepsOn {σ ι : Type} [PolicyKeeper σ] {v : Vault σ ι} {sound : σ → Prop}
    (hv : v.Reliable sound) (i : ι) (now : Int64) (asked : Request → Prop) :
    (v.backend i).KeepsOn now asked sound := by
  intro r _ s hs
  obtain ⟨a, t, hok, ht⟩ := hv.succeeds i r now s hs
  rw [hok]
  exact ht

section

variable {σ κ ι : Type} [PolicyKeeper σ] {v : Vault σ ι} {sound : σ → Prop} {id : String}
  {m : ι → ExpiringMap Bytes} {now : Int64}

/-- The state is sound, and the maps have under a key what the given maps have. -/
def Vault.Retains (v : Vault σ ι) (sound : σ → Prop) (id : String) (m : ι → ExpiringMap Bytes)
    (now : Int64) (s : σ) : Prop :=
  ∃ m', v.Has sound now s m' ∧ ∀ i, m' i id = m i id

theorem Vault.Retains.later {next : Int64} {s : σ} (h : v.Retains sound id m now s)
    (hle : now ≤ next) : v.Retains sound id m next s := by
  obtain ⟨m', hm', hsame⟩ := h
  exact ⟨m', hm'.later hle, hsame⟩

variable [DecidableEq ι] (hv : v.Reliable sound) (refusal : ι → Option StorageFailure)
include hv

theorem Vault.Reliable.retains (i : ι) :
    ((v.refusing refusal).backend i).KeepsOn now (Request.Spares id)
      (v.Retains sound id m now) := by
  rintro r hr s ⟨m', hm', hsame⟩
  have hpassed : v.Retains sound id m now ((v.backend i).perform r now s).2 := by
    obtain ⟨a, t, hok, -, ht⟩ := hv.perform hm' i r
    rw [hok]
    refine ⟨_, ht, fun j => ?_⟩
    by_cases hj : j = i
    · subst hj
      rw [Function.update_self, after_of_spares hr, hsame]
    · rw [Function.update_of_ne hj, hsame]
  simp only [Vault.refusing, Vault.behind, Backend.guarded]
  split
  · next failure t hgate =>
    obtain ⟨-, rfl⟩ := Prod.mk.inj hgate
    exact ⟨m', hm', hsame⟩
  · next t hgate =>
    obtain ⟨-, rfl⟩ := Prod.mk.inj hgate
    exact hpassed

variable {L : Layout κ ι} {ks : List κ} {answering : κ}

omit [PolicyKeeper σ] [DecidableEq ι] hv in
theorem Layout.stack_composed (b : ι → Backend σ) (hanswering : answering ∈ ks) (ticket : Nat) :
    (L.stack b ks answering ticket).Composed where
  layers := by
    show L.layers b ks = (ks.map (L.table b)).map Table.layer
    rw [List.map_map]
    rfl
  queryTable := List.mem_map_of_mem hanswering

/-- Requests that are not about an identifier leave its cells, whatever refuses them. -/
theorem Layout.run_retains (hanswering : answering ∈ ks) (ticket : Nat)
    {requests : List (Int64 × RecordRequest)} (hspares : ∀ x ∈ requests, x.2.Spares id)
    {finish : Int64} (clock : (now :: requests.map Prod.fst ++ [finish]).Pairwise (· ≤ ·)) {s : σ}
    (h : v.Retains sound id m now s) :
    v.Retains sound id m finish
      ((L.stack (v.refusing refusal).backend ks answering ticket).run requests s) := by
  refine TableStack.run_keeps (fun h hle => h.later hle) (fun x hx => ?_) clock h
  refine TableStack.perform_keeps (L.stack_composed _ hanswering ticket) (hspares x hx)
    (fun t ht b hb => ?_) fun p s hs => ?_
  · obtain ⟨k, -, rfl⟩ := List.mem_map.1 ht
    rw [L.table_maps] at hb
    obtain ⟨i, -, rfl⟩ := List.mem_map.1 hb
    exact hv.retains refusal i
  · obtain ⟨m', hm', hsame⟩ := hs
    exact ⟨m', ⟨hv.policies _ p s hm'.sound, hm'.holds.policy _ p⟩, hsame⟩

/-- What a table answers by itself is told by the cells that it was left with. -/
theorem Layout.get_retained {s : σ} {next : Int64} (hle : now ≤ next) (k : κ) (r : Record)
    (h : v.Retains sound id m next s) :
    ((L.table (v.refusing refusal).backend k).get next id s).1 = .ok (some r) ↔
      (((L.cells m now id k).later next).view L.fields id).map (Option.map Prod.fst) =
        some (some r) := by
  obtain ⟨m', hm', hsame⟩ := h
  have hcells : L.cells m' next id k = (L.cells m now id k).later next := by
    unfold Layout.cells
    rw [← Table.Maps.cells_later hle]
    simp only [Table.Maps.cells, live?, hsame]
  have hget := Table.get_yields hv refusal (L.table_laidOn _ k) hm' id
  rw [← hcells]
  exact hget.eq_ok_iff (some r)

end

namespace Layout

variable {σ κ ι : Type} [PolicyKeeper σ] [DecidableEq ι] {L : Layout κ ι} {v : Vault σ ι}
  {sound : σ → Prop} {now : Int64} {s : σ} {m : ι → ExpiringMap Bytes}

omit [DecidableEq ι] in
/-- What is live in the columns has not expired. -/
theorem live_expiries {id : String} {k : κ} :
    ∀ e ∈ (L.cells m now id k).expiries L.fields, isExpired e now = false := by
  intro e he
  obtain ⟨f, -, cell, hcell, rfl⟩ := Table.Cells.mem_expiries.1 he
  exact not_isExpired_of_live? hcell

omit [DecidableEq ι] in
/-- Where a table had nothing, all it has after a copy are cells of the copy. -/
theorem stamped_copiedCells {r : Record} {k : κ} (hnothing : L.answer m now r.id k = some none)
    (refusal : ι → Option StorageFailure) (expiry : Int64) :
    (L.copiedCells refusal now r expiry m k).Stamped L.fields expiry := by
  obtain ⟨hmark, hcolumn⟩ := Table.Cells.eq_none_of_view hnothing
  have hempty : (L.cells m now r.id k).Stamped L.fields expiry := by
    refine ⟨fun cell hcell => ?_, fun f hf cell hcell => ?_⟩
    · rw [hmark] at hcell
      cases hcell
    · rw [hcolumn f hf] at hcell
      cases hcell
  unfold copiedCells Table.Cells.put
  split
  · split
    · exact hempty
    · refine ⟨fun cell hcell => ?_, fun f hf cell hcell => ?_⟩
      · rw [Option.mem_def, Option.filter_eq_some_iff] at hcell
        obtain rfl := Option.some.inj hcell.1
        rfl
      · simp only [Option.mem_def] at hcell
        split at hcell
        · obtain ⟨hnew, -⟩ := Option.filter_eq_some_iff.1 hcell
          obtain ⟨value, -, rfl⟩ := Option.map_eq_some_iff.1 hnew
          rfl
        · rw [hcolumn f hf] at hcell
          cases hcell
  · exact hempty

/-- A get leaves the table that it found the record in as it was, and a copy in those above. -/
theorem get_populates (hv : v.Reliable sound) (refusal : ι → Option StorageFailure)
    {o : TableStack σ} {ks uppers lowers : List κ} {k : κ} {id : String} {r : Record}
    {expiry : Int64} (layers : o.stack.layers = L.layers (v.refusing refusal).backend ks)
    (hnodup : ks.Nodup) (hks : ks = uppers ++ k :: lowers) (h : v.Has sound now s m)
    (hmiss : ∀ i ∈ uppers, (L.answer m now id i).join = none)
    (hhit : L.answer m now id k = some (some (r, expiry))) :
    ∃ s' m', o.get now id s = (.ok (some r), s') ∧ v.Has sound now s' m' ∧
      Table.Cells.Alike L.fields (L.cells m' now id k) (L.cells m now id k) ∧
      ∀ j ∈ uppers, Table.Cells.Alike L.fields (L.cells m' now id j)
        (L.copiedCells refusal now r expiry m j) := by
  obtain rfl := id_of_answer hhit
  obtain ⟨t, ht, hread⟩ := read_populates layers
    (fun k s hs => fetch_yields hv refusal hs r.id k) hks hmiss hhit h
  rw [hks] at hnodup
  obtain ⟨huppers, -, hdisjoint⟩ := List.nodup_append.1 hnodup
  obtain ⟨m', hm', hothers, hcells⟩ := populate_holds hv refusal r expiry huppers ht
  refine ⟨_, m', hread, hm', cells_congr fun i hi => hothers i fun j hj => ?_, hcells⟩
  exact L.apart (Ne.symm (hdisjoint j hj k List.mem_cons_self)) i hi

/-- **When a populated copy outlives its source.**  A get finds a record in some table and
copies it into those above.  Say that one of these then has nothing of the identifier but the
copy.  Whatever is asked of the stack for other identifiers from then on, and whatever refuses
it: as long as that table answers by itself with the record, so does the one that the copy was
taken from, just if the copy is not whole or no negative expiry hides that a column expires. -/
theorem get_copies_iff (hv : v.Reliable sound) (refusal later : ι → Option StorageFailure)
    {ks uppers lowers : List κ} {k j answering : κ} {id : String} {r : Record} {expiry : Int64}
    (hanswering : answering ∈ ks) (hnodup : ks.Nodup) (hks : ks = uppers ++ k :: lowers)
    (h : v.Has sound now s m) (hmiss : ∀ i ∈ uppers, (L.answer m now id i).join = none)
    (hhit : L.answer m now id k = some (some (r, expiry))) (hj : j ∈ uppers)
    (hcopy : (L.copiedCells refusal now r expiry m j).Stamped L.fields expiry) (ticket : Nat) :
    ∃ s', (L.stack (v.refusing refusal).backend ks answering ticket).get now id s =
        (.ok (some r), s') ∧
      ((∀ (requests : List (Int64 × RecordRequest)) (finish : Int64),
          (∀ x ∈ requests, x.2.Spares id) →
          (now :: requests.map Prod.fst ++ [finish]).Pairwise (· ≤ ·) →
          ((L.table (v.refusing later).backend j).get finish id
              ((L.stack (v.refusing later).backend ks answering ticket).run requests s')).1 =
            .ok (some r) →
          ((L.table (v.refusing later).backend k).get finish id
              ((L.stack (v.refusing later).backend ks answering ticket).run requests s')).1 =
            .ok (some r)) ↔
        ¬(L.copied? refusal now r expiry m j = some r ∧
          (L.cells m now id k).Masked L.fields)) := by
  obtain ⟨s', m', hget, hm', hsource, hcopies⟩ := get_populates hv refusal (o := L.stack
    (v.refusing refusal).backend ks answering ticket) rfl hnodup hks h hmiss hhit
  refine ⟨s', hget, ?_⟩
  have hanswer : ∀ (requests : List (Int64 × RecordRequest)) (finish : Int64),
      (∀ x ∈ requests, x.2.Spares id) →
      (now :: requests.map Prod.fst ++ [finish]).Pairwise (· ≤ ·) → ∀ l,
      (((L.table (v.refusing later).backend l).get finish id
        ((L.stack (v.refusing later).backend ks answering ticket).run requests s')).1 =
          .ok (some r) ↔
        (((L.cells m' now id l).later finish).view L.fields id).map (Option.map Prod.fst) =
          some (some r)) := by
    intro requests finish hspares clock l
    have hle : now ≤ finish := (List.pairwise_cons.1 clock).1 finish (by simp)
    exact get_retained hv later hle l r
      (run_retains hv later hanswering ticket hspares clock ⟨m', hm', fun _ => rfl⟩)
  have hj : ∀ time, ((L.cells m' now id j).later time).view L.fields id =
      if isExpired expiry time then some none
      else (L.copiedCells refusal now r expiry m j).view L.fields id := fun time =>
    (((hcopies j hj).later time).view id).trans (hcopy.view_later time)
  have hk : ∀ time, ((L.cells m' now id k).later time).view L.fields id =
      ((L.cells m now id k).later time).view L.fields id := fun time => (hsource.later time).view id
  have hwhole : L.copied? refusal now r expiry m j = some r ↔
      ((L.copiedCells refusal now r expiry m j).view L.fields id).map (Option.map Prod.fst) =
        some (some r) := by
    rw [copied?, id_of_answer hhit]
    rcases (L.copiedCells refusal now r expiry m j).view L.fields id with _ | _ | e <;> simp
  have hlive : ∀ e ∈ (L.cells m now id k).expiries L.fields, isExpired e now = false :=
    live_expiries
  have houtlasts := Table.Cells.outlasts_iff hhit hlive
  constructor
  · rintro hall ⟨hcopied, hmasked⟩
    refine houtlasts.1 (fun time hle hkept => ?_) hmasked
    -- Nothing is asked of the stack in the meantime.
    have clock : (now :: ([] : List (Int64 × RecordRequest)).map Prod.fst ++ [time]).Pairwise
        (· ≤ ·) := by simpa using hle
    have hspares : ∀ x ∈ ([] : List (Int64 × RecordRequest)), x.2.Spares id := List.forall_mem_nil _
    have hsource := hall [] time hspares clock
    rw [hanswer [] time hspares clock, hanswer [] time hspares clock, hj, hkept, hk] at hsource
    exact hsource (hwhole.1 hcopied)
  · intro hnot requests finish hspares clock
    rw [hanswer requests finish hspares clock, hanswer requests finish hspares clock, hj, hk]
    intro hseen
    split at hseen
    · cases hseen
    · next hkept =>
      have hmasked : ¬(L.cells m now id k).Masked L.fields := fun hmasked =>
        hnot ⟨hwhole.2 hseen, hmasked⟩
      have hle : now ≤ finish := (List.pairwise_cons.1 clock).1 finish (by simp)
      exact houtlasts.2 hmasked finish hle (by simpa using hkept)

/-- The item is in the lower of two tables: its number never expires, its text after an hour. -/
def unendingNumber : Site :=
  let lower := items.table memoryVault.backend 1
  let numbered := (lower.appendExpiring 0 (some "r") "" [("num", .integer 42)] (-1)
    (.ofVolumes default [])).2
  (lower.appendExpiring 0 (some "r") "" [("str_val", .text "test")] 3600 numbered).2

theorem unendingNumber_sound :
    unendingNumber.Sound (fun _ => .memory) fun _ => false := by
  have hempty : (Site.ofVolumes default []).Sound (fun _ => .memory) fun _ => false :=
    .ofVolumes fun _ => .new .memory false
  have hmaps : ∀ b ∈ (items.table memoryVault.backend 1).maps,
      b.KeepsOn 0 (fun _ => True) (Site.Sound (fun _ => .memory) fun _ => false) := by
    intro b hb
    rw [items.table_maps] at hb
    obtain ⟨i, -, rfl⟩ := List.mem_map.1 hb
    exact (Site.vault_reliable _ _).keepsOn i 0 _
  exact Table.appendExpiring_keeps hmaps (fun _ _ => trivial) _ _ _
    (Table.appendExpiring_keeps hmaps (fun _ _ => trivial) _ _ _ hempty)

/-- The copy of the item that a get leaves in the upper table outlives its text. -/
theorem get_copies_iff_unendingNumber :
    ∃ s', ((items.stack (memoryVault.refusing fun _ => none).backend [0, 1] 1 0).get 0 "r"
        unendingNumber) = (.ok (some item), s') ∧
      ¬∀ (requests : List (Int64 × RecordRequest)) (finish : Int64),
        (∀ x ∈ requests, x.2.Spares "r") →
        (0 :: requests.map Prod.fst ++ [finish]).Pairwise (· ≤ ·) →
        ((items.table (memoryVault.refusing fun _ => none).backend 0).get finish "r"
            ((items.stack (memoryVault.refusing fun _ => none).backend [0, 1] 1 0).run requests
              s')).1 = .ok (some item) →
        ((items.table (memoryVault.refusing fun _ => none).backend 1).get finish "r"
            ((items.stack (memoryVault.refusing fun _ => none).backend [0, 1] 1 0).run requests
              s')).1 = .ok (some item) := by
  have hhas : memoryVault.Has (Site.Sound (fun _ => .memory) fun _ => false) 0 unendingNumber
      fun i => memoryVault.contents i unendingNumber :=
    ⟨unendingNumber_sound, fun _ => .refl _ _⟩
  have hks : [0, 1] = [0] ++ 1 :: [] := rfl
  have hnothing : items.answer (fun i => memoryVault.contents i unendingNumber) 0 "r" 0 =
      some none := by decide +kernel
  have hmiss : ∀ j ∈ [0], (items.answer (fun i => memoryVault.contents i unendingNumber) 0 "r"
      j).join = none := by
    intro j hj
    rw [List.mem_singleton.1 hj, hnothing]
    rfl
  have hhit : items.answer (fun i => memoryVault.contents i unendingNumber) 0 "r" 1 =
      some (some (item, -1)) := by decide +kernel
  have hexpiries : (items.cells (fun i => memoryVault.contents i unendingNumber) 0 "r" 1).expiries
      items.fields = [-1, 3600] := by decide +kernel
  have hmasked : (items.cells (fun i => memoryVault.contents i unendingNumber) 0 "r" 1).Masked
      items.fields := by
    unfold Table.Cells.Masked
    rw [hexpiries]
    exact ⟨.inr ⟨-1, by decide, by decide⟩, 3600, by decide, by decide⟩
  have hcopied : items.copied? (fun _ => none) 0 item (-1)
      (fun i => memoryVault.contents i unendingNumber) 0 = some item := by decide +kernel
  have hanswering : 1 ∈ [0, 1] := by decide
  obtain ⟨s', hget, hiff⟩ := get_copies_iff (Site.vault_reliable _ _) (fun _ => none)
    (fun _ => none) hanswering (by decide) hks hhas hmiss hhit List.mem_cons_self
    (stamped_copiedCells hnothing _ _) 0
  exact ⟨s', hget, fun hall => hiff.1 hall ⟨hcopied, hmasked⟩⟩

end Layout

end LayeredStore
