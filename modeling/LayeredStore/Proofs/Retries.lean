import LayeredStore.Proofs.ExactWrites
import LayeredStore.Proofs.TableAppends

/-! # Retried writes

A write of a table goes from map to map and stops where one fails; a write of a stack goes on
to every layer.  Either way a failed write may have been done in part.  It is safe to repeat
because it prescribes, whatever is stored, which entry its identifier should have in which map
(`Vault.Write.due?`): an attempt moves entries to where they should be and nowhere else, and
one that succeeds has moved them all (`Action.Carries`).  So the entries after a run of attempts
of which one succeeded are known from those before the run, however the others failed
(`Vault.Write.retries_safe`).
-/
namespace LayeredStore

open ExpiringMap

/-! ### Prescribed entries -/

namespace Vault

variable {σ ι : Type} [PolicyKeeper σ] (v : Vault σ ι)
  (due? : ι → Option (Option (Bytes × Int64))) (id : String)

/-- Entries are as they were, except perhaps those of an identifier that are now as prescribed. -/
def Toward (s s' : σ) : Prop :=
  ∀ i key, v.contents i s' key = v.contents i s key ∨
    key = id ∧ due? i = some (v.contents i s' key)

/-- The entry of an identifier in a map is as prescribed, if something is. -/
def Meets (i : ι) (s : σ) : Prop := ∀ e? ∈ due? i, v.contents i s id = e?

variable {v due? id} {s u s' : σ}

theorem Toward.of_eq (h : ∀ i, v.contents i s' = v.contents i s) : v.Toward due? id s s' :=
  fun i key => .inl (congrFun (h i) key)

theorem Toward.trans (h : v.Toward due? id s u) (h' : v.Toward due? id u s') :
    v.Toward due? id s s' := by
  intro i key
  rcases h' i key with hsame | hmoved
  · rw [hsame]
    exact h i key
  · exact .inr hmoved

/-- An entry that is as prescribed stays so. -/
theorem Meets.toward {i : ι} (h : v.Meets due? id i s) (h' : v.Toward due? id s s') :
    v.Meets due? id i s' := by
  intro e? he
  rcases h' i id with hsame | ⟨-, hmoved⟩
  · rw [hsame]
    exact h e? he
  · exact Option.some.inj (hmoved.symm.trans he)

end Vault

/-- An action moves entries of an identifier to where they should be, and no others.  When it
succeeds the maps it reaches have them. -/
structure Action.Carries {σ ι ε α : Type} [PolicyKeeper σ] (x : Action σ ε α) (v : Vault σ ι)
    (due? : ι → Option (Option (Bytes × Int64))) (id : String) (reached : ι → Prop) : Prop where
  /-- Nothing else is moved, whatever fails. -/
  toward : ∀ s, v.Toward due? id s (x s).2
  /-- After a success the entries are in place. -/
  meets : ∀ {s a s'}, x s = (.ok a, s') → ∀ i, reached i → v.Meets due? id i s'

namespace Action.Carries

variable {σ ι ε ε' α β : Type} [PolicyKeeper σ] {v : Vault σ ι}
  {due? : ι → Option (Option (Bytes × Int64))} {id : String} {reached others : ι → Prop}

theorem ofExcept (x : Except ε α) :
    (Action.ofExcept x : Action σ ε α).Carries v due? id fun _ => False where
  toward _ := .of_eq fun _ => rfl
  meets _ _ := False.elim

theorem pure (a : α) : (Pure.pure a : Action σ ε α).Carries v due? id fun _ => False :=
  ofExcept (.ok a)

/-- The maps that two actions reach are reached by both together. -/
theorem bind {x : Action σ ε α} {f : α → Action σ ε β} (hx : x.Carries v due? id reached)
    (hf : ∀ a, (f a).Carries v due? id others) :
    (x >>= f).Carries v due? id fun i => reached i ∨ others i where
  toward s := by
    have htoward := hx.toward s
    rw [Action.bind_apply]
    generalize x s = result at htoward ⊢
    obtain ⟨_ | a, u⟩ := result
    · exact htoward
    · exact htoward.trans ((hf a).toward u)
  meets {s b s'} hok i hi := by
    obtain ⟨a, u, hx', hf'⟩ := Action.exists_of_bind_ok hok
    have hrest := (hf a).toward u
    rw [hf'] at hrest
    exact hi.elim (fun hi => (hx.meets hx' i hi).toward hrest) ((hf a).meets hf' i)

theorem mapError {x : Action σ ε α} (hx : x.Carries v due? id reached) (f : ε → ε') :
    (x.mapError f).Carries v due? id reached where
  toward s := by
    have htoward := hx.toward s
    unfold Action.mapError
    generalize x s = result at htoward ⊢
    obtain ⟨_ | a, u⟩ := result <;> exact htoward
  meets {s a s'} hok := by
    refine hx.meets (s := s) (a := a) ?_
    unfold Action.mapError at hok
    split at hok
    · next hrun =>
      rw [hrun]
      cases hok
      rfl
    · cases hok

/-- Nothing can be out of place in a map for which nothing is prescribed. -/
theorem mono {x : Action σ ε α} (hx : x.Carries v due? id reached)
    (h : ∀ i, others i → (due? i).isSome → reached i) : x.Carries v due? id others where
  toward := hx.toward
  meets hok i hi e? he := hx.meets hok i (h i hi (by rw [he]; rfl)) e? he

end Action.Carries

/-! ### Parts of a write -/

section

variable {σ ι : Type} [PolicyKeeper σ] {v : Vault σ ι} (hv : v.WritesExactly)
  {due? : ι → Option (Option (Bytes × Int64))} {id : String} {now : Int64}

include hv

/-- A request that writes the prescribed entry carries it out. -/
theorem Vault.WritesExactly.carries {r : Request} {i : ι} {new? : Option (Bytes × Int64)}
    (hwrite : r.write? = some (id, new?)) (hentry : due? i = some new?) :
    ((v.backend i).perform r now).Carries v due? id (· = i) where
  toward s j key := by
    by_cases hj : i = j
    · subst hj
      rcases hperform : (v.backend i).perform r now s with ⟨failure | a, s'⟩
      · exact .inl (congrFun ((hv i).undone hwrite hperform) key)
      · have hset := (hv i).done hwrite hperform
        by_cases hkey : key = id
        · subst hkey
          refine .inr ⟨rfl, ?_⟩
          rw [hentry, hset, ExpiringMap.set, Function.update_self]
        · rw [hset, ExpiringMap.set, Function.update_of_ne hkey]
          exact .inl rfl
    · exact .inl (congrFun (v.others hj r now s) key)
  meets {s a s'} hok j hj e? he := by
    subst hj
    rw [hentry] at he
    rw [(hv j).done hwrite hok, ExpiringMap.set, Function.update_self]
    exact Option.some.inj he

namespace Table

variable {maps : Maps ι} {f : String}

theorem column_put_carries {value : Value} {expiry : Int64}
    (hentry : due? (maps.column f) = some (some (Stored.bytes value, expiry))) :
    ((column (v.backend (maps.column f))).put now id value expiry).Carries v due? id
      (· = maps.column f) :=
  (Action.Carries.bind (hv.carries (r := .put id (Stored.bytes value) expiry) rfl hentry)
    fun _ => .ofExcept _).mono fun _ hi _ => .inl hi

theorem column_remove_carries (hentry : due? (maps.column f) = some none) :
    ((column (v.backend (maps.column f))).remove now id).Carries v due? id
      (· = maps.column f) :=
  (Action.Carries.bind (hv.carries (r := .remove id) rfl hentry)
    fun _ => .ofExcept _).mono fun _ hi _ => .inl hi

variable {t : Table σ} (ht : t.LaidOn v.backend maps)

omit [PolicyKeeper σ] hv in
/-- There is no column for a field that is not declared. -/
theorem LaidOn.get?_column_of_notMem {b : ι → Backend σ} (ht : t.LaidOn b maps)
    (hf : f ∉ t.schema.fields.keys) : t.columns.get? f = none := by
  refine Option.eq_none_iff_forall_ne_some.2 fun c hc => hf ?_
  have hmem : (f, c) ∈ t.columns.toList := (Dictionary.get?_eq_some_iff t.columns f c).1 hc
  rw [ht.columns] at hmem
  obtain ⟨g, hg, heq⟩ := List.mem_map.1 hmem
  rwa [← (Prod.mk.inj heq).1]

theorem replaceFields_carries {record : Record} {expiry : Int64} {fields : List String}
    (hentry : ∀ f ∈ fields, due? (maps.column f) = some (record.cell expiry f)) :
    (replaceFields now record expiry (fields.map fun f => (f, v.backend (maps.column f)))).Carries
      v due? record.id fun i => ∃ f ∈ fields, i = maps.column f := by
  induction fields with
  | nil => exact (Action.Carries.pure ()).mono fun i hi _ => by simp at hi
  | cons f rest ih =>
    have hrest := ih fun g hg => hentry g (List.mem_cons_of_mem f hg)
    have hf := hentry f List.mem_cons_self
    have hreached : ∀ i, (∃ g ∈ f :: rest, i = maps.column g) → (due? i).isSome →
        i = maps.column f ∨ ∃ g ∈ rest, i = maps.column g := fun i hi _ => by simpa using hi
    rw [List.map_cons, replaceFields]
    cases hfield : record.fields.get? f with
    | some value =>
      rw [Record.cell, hfield, Option.map_some] at hf
      exact (Action.Carries.bind ((column_put_carries hv hf).mapError _) fun _ => hrest).mono hreached
    | none =>
      rw [Record.cell, hfield, Option.map_none] at hf
      exact (Action.Carries.bind ((column_remove_carries hv hf).mapError _) fun _ => hrest).mono
        hreached

include ht

theorem mark_carries {expiry : Int64}
    (hentry : due? maps.index = some (some (indexMarker, expiry))) :
    (t.mark now id expiry).Carries v due? id (· = maps.index) := by
  have hput : (t.index.put now id indexMarker expiry).Carries v due? id (· = maps.index) := by
    rw [ht.index]
    exact hv.carries rfl hentry
  exact (Action.Carries.bind (hput.mapError _) fun _ => .pure ()).mono fun _ hi _ => .inl hi

/-- Fields that are not declared have no column and are passed by. -/
theorem writeFields_carries {expiry : Int64} {fields : List (String × Value)}
    (hentry : ∀ p ∈ fields, p.1 ∈ t.schema.fields.keys →
      due? (maps.column p.1) = some (some (Stored.bytes p.2, expiry))) :
    (t.writeFields now id expiry fields).Carries v due? id
      fun i => ∃ p ∈ fields, p.1 ∈ t.schema.fields.keys ∧ i = maps.column p.1 := by
  induction fields with
  | nil => exact (Action.Carries.pure ()).mono fun i hi _ => by simp at hi
  | cons p rest ih =>
    obtain ⟨f, value⟩ := p
    have hrest := ih fun q hq => hentry q (List.mem_cons_of_mem _ hq)
    rw [writeFields]
    by_cases hf : f ∈ t.schema.fields.keys
    · rw [ht.get?_column hf]
      have hput : ((column (v.backend (maps.column f))).put now id value expiry).Carries v due? id
          (· = maps.column f) := column_put_carries hv (hentry (f, value) List.mem_cons_self hf)
      exact (Action.Carries.bind (hput.mapError _) fun _ => hrest).mono fun i hi _ => by
        simpa [hf] using hi
    · rw [ht.get?_column_of_notMem hf]
      exact hrest.mono fun i hi _ => by simpa [hf] using hi

end Table

omit hv in
/-- Members carry out their parts one after another; none moves back what one before it moved. -/
theorem attemptEach_carries {κ α : Type} {act : κ → Action σ StoreError α} {members : List κ}
    {reached : κ → ι → Prop} (h : ∀ m ∈ members, (act m).Carries v due? id (reached m)) (s : σ) :
    v.Toward due? id s (attemptEach act members s).2 ∧
      ∀ results : List α, (attemptEach act members s).1 = results.map .ok →
        ∀ m ∈ members, ∀ i, reached m i → v.Meets due? id i (attemptEach act members s).2 := by
  induction members generalizing s with
  | nil => exact ⟨.of_eq fun _ => rfl, nofun⟩
  | cons m rest ih =>
    have hm := h m List.mem_cons_self
    obtain ⟨htoward, hmeets⟩ := ih (fun n hn => h n (List.mem_cons_of_mem m hn)) (act m s).2
    refine ⟨(hm.toward s).trans htoward, fun results hresults n hn i hi => ?_⟩
    obtain ⟨a, others, -, ha, hothers⟩ := List.map_eq_cons_iff.1 hresults.symm
    rcases List.mem_cons.1 hn with rfl | hn
    · exact (hm.meets (Prod.ext ha.symm rfl) i hi).toward htoward
    · exact hmeets others hothers.symm n hn i hi

omit hv in
/-- What members carry out they carry out together. -/
theorem fanOut_carries {κ α : Type} {act : κ → Action σ StoreError α} {members : List κ}
    {reached : κ → ι → Prop} (h : ∀ m ∈ members, (act m).Carries v due? id (reached m))
    (operation : String) (label : κ → String) :
    (fanOut operation label act members).Carries v due? id
      fun i => ∃ m ∈ members, reached m i where
  toward s := by
    rcases fanOut_apply operation label act members s with ⟨results, -, hfan⟩ | ⟨e, hfan⟩ <;>
      rw [hfan] <;> exact (attemptEach_carries h s).1
  meets {s a s'} hok i hi := by
    obtain ⟨m, hm, hi⟩ := hi
    rcases fanOut_apply operation label act members s with ⟨results, hresults, hfan⟩ | ⟨e, hfan⟩ <;>
      rw [hfan] at hok <;> cases hok
    exact (attemptEach_carries h s).2 _ hresults m hm i hi

end

/-! ### Writes -/

namespace Table

variable {ι : Type} [DecidableEq ι] (maps : Maps ι) (keys : List String) (expiry : Int64)
  (cell? : String → Option (Option (Bytes × Int64)))

/-- The entries that a write of a table prescribes: the mark, and the cells in some columns. -/
def Maps.due? (i : ι) : Option (Option (Bytes × Int64)) :=
  if i = maps.index then some (some (indexMarker, expiry))
  else (keys.find? fun f => maps.column f = i).bind cell?

variable {maps keys}

theorem Maps.due?_index : maps.due? keys expiry cell? maps.index =
    some (some (indexMarker, expiry)) := if_pos rfl

theorem Maps.due?_column (hnodup : (maps.places keys).Nodup) {f : String} (hf : f ∈ keys) :
    maps.due? keys expiry cell? (maps.column f) = cell? f := by
  obtain ⟨hindex, hcolumns⟩ := List.nodup_cons.1 hnodup
  have hne : maps.column f ≠ maps.index := fun heq => hindex (heq ▸ List.mem_map_of_mem hf)
  rw [due?, if_neg hne]
  cases hfind : keys.find? fun g => maps.column g = maps.column f with
  | none => simpa using List.find?_eq_none.1 hfind f hf
  | some g =>
    have heq : maps.column g = maps.column f := by simpa using List.find?_some hfind
    rw [List.inj_on_of_nodup_map hcolumns (List.mem_of_find?_eq_some hfind) hf heq]
    rfl

/-- Entries are prescribed for the index and for columns only. -/
theorem Maps.exists_of_due? {i : ι} (h : (maps.due? keys expiry cell? i).isSome) :
    i = maps.index ∨ ∃ f ∈ keys, i = maps.column f ∧ (cell? f).isSome := by
  unfold due? at h
  split at h
  · next hi => exact .inl hi
  · cases hfind : keys.find? fun f => maps.column f = i with
    | none => rw [hfind] at h; cases h
    | some f =>
      rw [hfind] at h
      have hi : maps.column f = i := by simpa using List.find?_some hfind
      exact .inr ⟨f, List.mem_of_find?_eq_some hfind, hi.symm, h⟩

end Table

namespace Vault

variable {σ ι : Type} [PolicyKeeper σ] [DecidableEq ι] (v : Vault σ ι)

/-- A table over maps of a vault, each of them for itself. -/
structure TableOn where
  /-- The table. -/
  table : Table σ
  /-- Its maps. -/
  maps : Table.Maps ι
  /-- The table is over these maps. -/
  laidOn : table.LaidOn v.backend maps
  /-- No map is two of them. -/
  separate : (maps.places table.schema.fields.keys).Nodup

/-- A stack whose layers are maps of a vault. -/
structure StackOn where
  /-- The stack. -/
  stack : Stack σ Bytes
  /-- Its maps. -/
  places : List ι
  /-- The layers are these maps. -/
  layers : stack.layers = places.map fun i => .ofBackend (v.backend i)

/-- A write that can be attempted, with its arguments. -/
inductive Write
  /-- Write some fields of a record, under a fresh identifier where none is given. -/
  | append (t : v.TableOn) (id? : Option String) (fields : List (String × Value)) (expiry : Int64)
  /-- Replace a record. -/
  | put (t : v.TableOn) (record : Record) (expiry : Int64)
  /-- Store a value in every layer of a stack. -/
  | write (o : v.StackOn) (id : String) (value : Bytes) (expiry : Int64)

namespace Write

variable {v} (w : v.Write)

/-- The identifier that is written. -/
def id (fresh : String) : String :=
  match w with
  | .append _ id? _ _ => id?.getD fresh
  | .put _ record _ => record.id
  | .write _ id _ _ => id

/-- Attempt the write at a time, with a fresh identifier at hand. -/
def attempt (now : Int64) (fresh : String) : Action σ StoreError Unit :=
  match w with
  | .append t id? fields expiry => do
    let _ ← t.table.appendExpiring now id? fresh fields expiry
  | .put t record expiry => t.table.put now record expiry
  | .write o id value expiry => o.stack.writeExpiring now id value expiry

/-- The entry that the identifier should have in a map: the mark and every written value with
the expiry; none in the column of a field that a replaced record does not have.  An append
leaves the columns alone of which it says nothing. -/
def due? (i : ι) : Option (Option (Bytes × Int64)) :=
  match w with
  | .append t _ fields expiry =>
    t.maps.due? t.table.schema.fields.keys expiry
      (fun f => (lastSupplied fields f).map fun value => some (Stored.bytes value, expiry)) i
  | .put t record expiry =>
    t.maps.due? t.table.schema.fields.keys expiry (fun f => some (record.cell expiry f)) i
  | .write o _ value expiry => if i ∈ o.places then some (some (value, expiry)) else none

/-- An attempt: its time, the fresh identifier at hand, and what came of it. -/
structure Attempt where
  /-- The time. -/
  now : Int64
  /-- The fresh identifier. -/
  fresh : String
  /-- Success or the failure. -/
  outcome : Except StoreError Unit

/-- Attempts of a write one after another.  In each of them any request may fail, as the vault
has it; which ones do may change between attempts, and so may everything else that is no
entry. -/
inductive Retries : σ → List Attempt → σ → Prop
  /-- No attempt. -/
  | none (s : σ) : Retries s [] s
  /-- Another attempt comes first. -/
  | attempt {s u s' : σ} {a : Attempt} {rest : List Attempt} :
    w.attempt a.now a.fresh s = (a.outcome, u) → Retries u rest s' → Retries s (a :: rest) s'
  /-- The state changes first, and no entry does. -/
  | change {s u s' : σ} {attempts : List Attempt} :
    (∀ i, v.contents i u = v.contents i s) → Retries u attempts s' → Retries s attempts s'

end Write

end Vault

section

variable {σ ι : Type} [PolicyKeeper σ] [DecidableEq ι] {v : Vault σ ι} (hv : v.WritesExactly)

include hv

theorem Table.appendExpiring_carries (t : v.TableOn) (id? : Option String) (now : Int64)
    (fresh : String) (fields : List (String × Value)) (expiry : Int64) :
    (t.table.appendExpiring now id? fresh fields expiry).Carries v
      (Vault.Write.append t id? fields expiry).due? (id?.getD fresh) fun _ => True := by
  have hfields : ∀ p ∈ (Record.ofFields (id?.getD fresh) fields).fields.toList,
      p.1 ∈ t.table.schema.fields.keys →
      (Vault.Write.append t id? fields expiry).due? (t.maps.column p.1) =
        some (some (Stored.bytes p.2, expiry)) := by
    intro p hp hdeclared
    have hvalue := (Dictionary.get?_eq_some_iff _ p.1 p.2).2 hp
    rw [Record.get?_ofFields] at hvalue
    rw [Vault.Write.due?, Maps.due?_column _ _ t.separate hdeclared, hvalue]
    rfl
  have hreached : ∀ i, ((Vault.Write.append t id? fields expiry).due? i).isSome →
      i = t.maps.index ∨ ∃ p ∈ (Record.ofFields (id?.getD fresh) fields).fields.toList,
        p.1 ∈ t.table.schema.fields.keys ∧ i = t.maps.column p.1 := by
    intro i hi
    rcases Maps.exists_of_due? _ _ hi with hindex | ⟨f, hf, hcolumn, hsupplied⟩
    · exact .inl hindex
    · rw [Option.isSome_map] at hsupplied
      obtain ⟨value, hvalue⟩ := Option.isSome_iff_exists.1 hsupplied
      rw [← Record.get?_ofFields (id?.getD fresh)] at hvalue
      exact .inr ⟨(f, value), (Dictionary.get?_eq_some_iff _ f value).1 hvalue, hf, hcolumn⟩
  have hid := Record.id_ofFields (id?.getD fresh) fields
  rw [appendExpiring_eq]
  generalize Record.ofFields (id?.getD fresh) fields = record at hfields hreached hid ⊢
  rw [← hid]
  have hmark : (t.table.mark now record.id expiry).Carries v
      (Vault.Write.append t id? fields expiry).due? record.id (· = t.maps.index) :=
    mark_carries hv t.laidOn (Maps.due?_index expiry _)
  refine (Action.Carries.bind (.ofExcept _) fun _ => .bind (.ofExcept _) fun _ => .bind hmark
    fun _ => .bind (writeFields_carries hv t.laidOn hfields) fun _ => .pure record).mono ?_
  intro i _ hi
  exact .inr (.inr ((hreached i hi).imp_right .inl))

theorem Table.put_carries (t : v.TableOn) (now : Int64) (record : Record) (expiry : Int64) :
    (t.table.put now record expiry).Carries v (Vault.Write.put t record expiry).due? record.id
      fun _ => True := by
  have hfields : ∀ f ∈ t.table.schema.fields.keys,
      (Vault.Write.put t record expiry).due? (t.maps.column f) = some (record.cell expiry f) :=
    fun f hf => Maps.due?_column _ _ t.separate hf
  have hmark : (t.table.mark now record.id expiry).Carries v
      (Vault.Write.put t record expiry).due? record.id (· = t.maps.index) :=
    mark_carries hv t.laidOn (Maps.due?_index expiry _)
  have hreplace : (replaceFields now record expiry t.table.columns.toList).Carries v
      (Vault.Write.put t record expiry).due? record.id
      fun i => ∃ f ∈ t.table.schema.fields.keys, i = t.maps.column f := by
    rw [t.laidOn.columns]
    exact replaceFields_carries hv hfields
  refine (Action.Carries.bind (.ofExcept _) fun _ => .bind (.ofExcept _) fun _ => .bind hmark
    fun _ => hreplace).mono ?_
  intro i _ hi
  refine .inr (.inr ((Maps.exists_of_due? _ _ hi).imp_right ?_))
  rintro ⟨f, hf, hcolumn, -⟩
  exact ⟨f, hf, hcolumn⟩

theorem Stack.writeExpiring_carries (o : v.StackOn) (now : Int64) (id : String) (value : Bytes)
    (expiry : Int64) :
    (o.stack.writeExpiring now id value expiry).Carries v
      (Vault.Write.write o id value expiry).due? id fun _ => True := by
  have hlayer : ∀ l ∈ o.stack.layers, (l.store now id value expiry).Carries v
      (Vault.Write.write o id value expiry).due? id
      fun i => i ∈ o.places ∧ l = .ofBackend (v.backend i) := by
    have hplace : ∀ i ∈ o.places, ((Layer.ofBackend (v.backend i)).store now id value expiry).Carries
        v (Vault.Write.write o id value expiry).due? id (· = i) := fun i hi =>
      (Action.Carries.mapError (.bind (hv.carries (r := .put id value expiry) rfl (if_pos hi))
        fun _ => .pure ()) _).mono fun _ hj _ => .inl hj
    intro l hl
    rw [o.layers] at hl
    obtain ⟨i, hi, rfl⟩ := List.mem_map.1 hl
    refine ⟨(hplace i hi).toward, ?_⟩
    rintro s a s' hok j ⟨hj, heq⟩
    rw [heq] at hok
    exact (hplace j hj).meets hok j rfl
  refine (Action.Carries.bind (fanOut_carries hlayer "write" Layer.label) fun _ => .pure ()).mono ?_
  intro i _ hi
  have hplace : i ∈ o.places := by
    by_contra hnot
    rw [Vault.Write.due?, if_neg hnot] at hi
    cases hi
  refine .inl ⟨.ofBackend (v.backend i), ?_, hplace, rfl⟩
  rw [o.layers]
  exact List.mem_map_of_mem hplace

/-- **One attempt** moves entries where they should be, all of them if it succeeds. -/
theorem Vault.Write.attempt_carries (w : v.Write) (now : Int64) (fresh : String) :
    (w.attempt now fresh).Carries v w.due? (w.id fresh) fun _ => True := by
  cases w with
  | append t id? fields expiry =>
    exact (Action.Carries.bind (Table.appendExpiring_carries hv t id? now fresh fields expiry)
      fun _ => .pure ()).mono fun _ _ _ => .inl trivial
  | put t record expiry => exact Table.put_carries hv t now record expiry
  | write o id value expiry => exact Stack.writeExpiring_carries hv o now id value expiry

namespace Vault.Write.Retries

variable {w : v.Write} {s s' : σ} {attempts : List Attempt}

/-- No attempt touches an entry but of its own identifier, and that only to make it what it
should be. -/
theorem moved (h : w.Retries s attempts s') (i : ι) (key : String) :
    v.contents i s' key = v.contents i s key ∨
      (∃ a ∈ attempts, key = w.id a.fresh) ∧ w.due? i = some (v.contents i s' key) := by
  induction h with
  | none s => exact .inl rfl
  | change hsame _ ih =>
    rw [← hsame i]
    exact ih
  | @attempt s u s' a rest hrun _ ih =>
    have hfirst := (attempt_carries hv w a.now a.fresh).toward s i key
    rw [hrun] at hfirst
    -- An entry that a later attempt has moved is in place, whatever this one did to it.
    rcases ih with hsame | ⟨⟨b, hb, hkey⟩, hentry⟩
    · rw [hsame]
      exact hfirst.imp_right fun hmoved => ⟨⟨a, List.mem_cons_self, hmoved.1⟩, hmoved.2⟩
    · exact .inr ⟨⟨b, List.mem_cons_of_mem a hb, hkey⟩, hentry⟩

/-- Once an attempt has succeeded, the entries of its identifier are what they should be. -/
theorem meets (h : w.Retries s attempts s') {a : Attempt} (ha : a ∈ attempts)
    (hok : a.outcome = .ok ()) (i : ι) : v.Meets w.due? (w.id a.fresh) i s' := by
  induction h with
  | none => cases ha
  | change _ _ ih => exact ih ha
  | @attempt s u s' b rest hrun hrest ih =>
    rcases List.mem_cons.1 ha with rfl | ha
    · rw [hok] at hrun
      have hmet := (attempt_carries hv w a.now a.fresh).meets hrun i trivial
      intro e? he
      rcases hrest.moved hv i (w.id a.fresh) with hsame | ⟨-, hmoved⟩
      · rw [hsame]
        exact hmet e? he
      · exact Option.some.inj (hmoved.symm.trans he)
    · exact ih ha

end Vault.Write.Retries

/-- **Retries of a partially failed write are safe.**  No attempt touches an entry of another
identifier than its own.  Once an attempt has succeeded, whatever failed before, the entries of
its identifier are the prescribed ones, and those of which the write says nothing are what they
were before the first attempt. -/
theorem Vault.Write.retries_safe (w : v.Write) {s s' : σ} {attempts : List Attempt}
    (h : w.Retries s attempts s') :
    (∀ i key, (∀ a ∈ attempts, key ≠ w.id a.fresh) → v.contents i s' key = v.contents i s key) ∧
      ∀ a ∈ attempts, a.outcome = .ok () → ∀ i, v.contents i s' (w.id a.fresh) =
        (w.due? i).getD (v.contents i s (w.id a.fresh)) := by
  constructor
  · intro i key hothers
    rcases h.moved hv i key with hsame | ⟨⟨a, ha, hkey⟩, -⟩
    · exact hsame
    · exact absurd hkey (hothers a ha)
  · intro a ha hok i
    cases hentry : w.due? i with
    | none =>
      rcases h.moved hv i (w.id a.fresh) with hsame | ⟨-, hmoved⟩
      · exact hsame
      · rw [hentry] at hmoved
        cases hmoved
    | some e? => exact h.meets hv ha hok i e? hentry

end

/-! ### A put that breaks off -/

namespace Layout

/-- Maps in memory that can be made to fail, on any number of volumes. -/
def guardedVault : Vault Site Site.MapId := Site.vault (fun _ => .memory) fun _ => true

/-- Items in such maps. -/
def guardedItems : guardedVault.TableOn where
  table := items.table _ 0
  maps := items.maps 0
  laidOn := items.table_laidOn _ 0
  separate := items.separate 0

/-- The item and another one, on a volume on which no text can be put. -/
def unwritable : Site :=
  Site.setFault 0 ⟨[.put], .io, some ["items#str_val"]⟩
    (guardedItems.table.put 0 { item with id := "s" } 0
      (guardedItems.table.put 0 item 0 (.ofVolumes default [.new .memory true])).2).2

/-- Replace the item by one that has only a text. -/
def renamed : guardedVault.Write :=
  .put guardedItems ⟨"r", .ofList [("str_val", .text "new")]⟩ 7

/-- The first attempt loses the number and fails on the text; the second one, when texts can be
put again, is none the worse for it. -/
theorem retries_safe_renamed :
    ∃ failure s', renamed.Retries unwritable [⟨1, "", .error failure⟩, ⟨2, "", .ok ()⟩] s' ∧
      guardedVault.contents (0, "items#_oid") s' "r" = some (indexMarker, 7) ∧
      guardedVault.contents (0, "items#num") s' "r" = none ∧
      guardedVault.contents (0, "items#str_val") s' "r" =
        some (Stored.bytes (Value.text "new"), 7) ∧
      ∀ i, guardedVault.contents i s' "s" = guardedVault.contents i unwritable "s" := by
  have hfails : (renamed.attempt 1 "" unwritable).1.toOption = none := by decide +kernel
  have hworks : (renamed.attempt 2 "" (Site.setFault 0 ⟨[], .io, none⟩
      (renamed.attempt 1 "" unwritable).2)).1.toOption = some () := by decide +kernel
  rcases hfirst : renamed.attempt 1 "" unwritable with ⟨failure | _, u⟩ <;>
    rw [hfirst] at hfails hworks
  case ok => cases hfails
  have hcleared : ∀ i, guardedVault.contents i (Site.setFault 0 ⟨[], .io, none⟩ u) =
      guardedVault.contents i u := fun i => Site.bareContents_write .memory i rfl rfl
  rcases hsecond : renamed.attempt 2 "" (Site.setFault 0 ⟨[], .io, none⟩ u) with ⟨_ | _, s'⟩ <;>
    rw [hsecond] at hworks
  case error => cases hworks
  have hretries : renamed.Retries unwritable [⟨1, "", .error failure⟩, ⟨2, "", .ok ()⟩] s' :=
    .attempt hfirst (.change hcleared (.attempt hsecond (.none s')))
  obtain ⟨hothers, hdone⟩ := Vault.Write.retries_safe (Site.vault_writesExactly _ _) renamed hretries
  have hstored := hdone ⟨2, "", .ok ()⟩ (by simp) rfl
  refine ⟨failure, s', hretries, (hstored _).trans rfl, (hstored _).trans rfl,
    (hstored _).trans rfl, fun i => hothers i "s" ?_⟩
  intro a _
  show "s" ≠ "r"
  decide

end Layout

end LayeredStore
