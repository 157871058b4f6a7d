import LayeredStore.Proofs.LayerCalls
import LayeredStore.Proofs.Opening
import LayeredStore.Proofs.Residents
import LayeredStore.Proofs.TableAppends
import LayeredStore.Proofs.UnnamedFields

/-! # Refusals before any request

Whether a write is faulty can be told from its input and the schema (`Schema.Faulty`): the
identifier given is empty, a field is not declared, or a value is not of the field's type.  Tables
and stacks of tables check that first (`Schema.screen`), so a faulty write ends in a violation of
the schema with the state as it was.  Here every map is watched, as layers are where reads are
followed: `Table.noted` does what the table does and notes each request, and a refusal has noted
none.

Where a field is supplied more than once, its last value counts.  A value before it is replaced when
the record is put together, before anything is checked; it is neither written nor looked at, and it
does not matter whether it would have been accepted.

`TableStack.writes_screened` says this of all four ways to write, and that no other input is
called a violation.  The one fault that is not reported so is an empty identifier put into a
stack: the stack does not look at it, each table refuses it, and the answer is their partial
failure.
-/
namespace LayeredStore

variable {σ α : Type}

/-! ### Watching maps -/

/-- A map whose requests are noted. -/
def Backend.noted (b : Backend σ) : Backend (σ × List Request) :=
  ⟨b.name, fun r now => (b.perform r now).noting r⟩

/-- The table with its maps watched. -/
def Table.noted (t : Table σ) : Table (σ × List Request) :=
  ⟨t.label, t.schema, t.index.noted, t.columns.map Backend.noted, t.lifespan⟩

/-- The stack with the maps of its tables watched. -/
def TableStack.noted (o : TableStack σ) : TableStack (σ × List Request) where
  schema := o.schema
  tables := o.tables.map Table.noted
  stack := ⟨o.stack.name, (o.tables.map Table.noted).map Table.layer, o.stack.lifespan,
    o.stack.ticket⟩
  queryTable := o.queryTable.noted

/-! ### Checking input -/

namespace Schema

variable {schema : Schema} {id? : Option String} {fields : Fields} {e : StoreError}

/-- What is wrong with a write of some values under an identifier, if one is given. -/
inductive Faulty (schema : Schema) (id? : Option String) (value? : String → Option Value) : Prop
  /-- The identifier is empty. -/
  | unidentified (empty : id? = some "")
  /-- A field is not declared. -/
  | undeclared {name : String} {value : Value} (supplied : value? name = some value)
      (unknown : schema.type? name = none)
  /-- A value is not accepted by the type of its field. -/
  | unaccepted {name : String} {value : Value} {type : FieldType}
      (supplied : value? name = some value) (declared : schema.type? name = some type)
      (refused : type.accepts value = false)

/-- The checks of a write, the identifier first. -/
def screen (schema : Schema) (id? : Option String) (fields : Fields) : Except StoreError Unit :=
  match id?.elim (.ok ()) schema.checkId with
  | .ok () => schema.checkAll fields.toList
  | .error e => .error e

/-- The error is a violation of the schema. -/
def IsViolation (schema : Schema) (e : StoreError) : Prop :=
  ∃ field reason, e = schema.violation field reason

theorem isViolation_of_check {name : String} {value : Value}
    (h : schema.check name value = .error e) : schema.IsViolation e := by
  unfold check at h
  split at h
  · next hrequire =>
    unfold require at hrequire
    split at hrequire <;> cases hrequire
    cases h
    exact ⟨_, _, rfl⟩
  · split at h <;> cases h
    exact ⟨_, _, rfl⟩

theorem isViolation_of_checkAll {fields : List (String × Value)}
    (h : schema.checkAll fields = .error e) : schema.IsViolation e := by
  induction fields with
  | nil => cases h
  | cons field rest ih =>
    rw [checkAll] at h
    split at h
    · exact ih h
    · next hcheck =>
      cases h
      exact isViolation_of_check hcheck

theorem isViolation_of_screen (h : schema.screen id? fields = .error e) : schema.IsViolation e := by
  unfold screen at h
  split at h
  · exact isViolation_of_checkAll h
  · next hid =>
    cases h
    cases id? with
    | none => cases hid
    | some id =>
      rw [Option.elim_some, checkId] at hid
      split at hid <;> cases hid
      exact ⟨_, _, rfl⟩

/-- **The checks let a write pass just if it is not faulty.** -/
theorem screen_eq_ok_iff :
    schema.screen id? fields = .ok () ↔ ¬schema.Faulty id? fields.get? := by
  constructor
  · rintro h (rfl | @⟨name, value, hsupplied, hunknown⟩ |
      @⟨name, value, type, hsupplied, htype, hrefused⟩)
    · cases h
    all_goals
      have hall : schema.checkAll fields.toList = .ok () := by
        unfold screen at h
        split at h
        · exact h
        · cases h
      have hmem := (Dictionary.get?_eq_some_iff _ name value).1 hsupplied
      obtain ⟨type', hdeclared, haccepts⟩ :=
        exists_accepts_of_check (checkAll_eq_ok_iff.1 hall _ hmem)
    · cases hunknown.symm.trans hdeclared
    · obtain rfl := Option.some.inj (htype.symm.trans hdeclared)
      rw [hrefused] at haccepts
      cases haccepts
  · intro hsound
    have hid : id?.elim (.ok ()) schema.checkId = .ok () := by
      cases id? with
      | none => rfl
      | some id => exact if_neg fun hempty => hsound (.unidentified (congrArg some hempty))
    rw [screen, hid, checkAll_eq_ok_iff]
    rintro ⟨name, value⟩ hmem
    have hsupplied := (Dictionary.get?_eq_some_iff fields name value).2 hmem
    unfold check require
    cases htype : schema.type? name with
    | none => exact absurd (.undeclared hsupplied htype) hsound
    | some type =>
      cases haccepts : type.accepts value with
      | false => exact absurd (.unaccepted hsupplied htype haccepts) hsound
      | true => simp [haccepts]

/-- An identifier adds a fault only if it is empty. -/
theorem faulty_some_iff {id : String} {value? : String → Option Value}
    (h : id = "" → schema.Faulty none value?) :
    schema.Faulty (some id) value? ↔ schema.Faulty none value? := by
  constructor
  · rintro (hempty | ⟨hsupplied, hunknown⟩ | ⟨hsupplied, hdeclared, hrefused⟩)
    · exact h (Option.some.inj hempty)
    · exact .undeclared hsupplied hunknown
    · exact .unaccepted hsupplied hdeclared hrefused
  · rintro (hempty | ⟨hsupplied, hunknown⟩ | ⟨hsupplied, hdeclared, hrefused⟩)
    · cases hempty
    · exact .undeclared hsupplied hunknown
    · exact .unaccepted hsupplied hdeclared hrefused

end Schema

/-! ### Errors of other kinds -/

/-- The action does not end in a violation of a schema. -/
def Action.Blameless (x : Action σ StoreError α) : Prop :=
  ∀ s table field reason, (x s).1 ≠ .error (.schemaViolation table field reason)

namespace Action.Blameless

variable {β : Type}

theorem pure (a : α) : (Pure.pure a : Action σ StoreError α).Blameless :=
  fun _ _ _ _ => nofun

theorem bind {x : Action σ StoreError α} {f : α → Action σ StoreError β} (hx : x.Blameless)
    (hf : ∀ a, (f a).Blameless) : (x >>= f).Blameless := by
  intro s table field reason
  rcases hfirst : x s with ⟨e | a, u⟩
  · have hblameless := hx s table field reason
    rw [hfirst] at hblameless
    rw [Action.bind_error hfirst]
    exact fun h => hblameless (congrArg Except.error (Except.error.inj h))
  · rw [Action.bind_ok hfirst]
    exact hf a u table field reason

theorem storage (x : Action σ StorageFailure α) : (x.mapError StoreError.storage).Blameless := by
  intro s table field reason hend
  unfold Action.mapError at hend
  split at hend <;> cases hend

/-- What a fan-out ends in is a partial failure. -/
theorem fanOut {ι : Type} (operation : String) (label : ι → String)
    (act : ι → Action σ StoreError α) (members : List ι) :
    (LayeredStore.fanOut operation label act members).Blameless := by
  intro s table field reason
  unfold LayeredStore.fanOut
  dsimp only
  split <;> exact nofun

end Action.Blameless

variable {now : Int64} {id : String}

theorem Stack.write_blameless {V : Type} (stack : Stack σ V) (value : V) :
    (stack.write now id value).Blameless :=
  .bind (.fanOut _ _ _ _) fun _ => .pure _

theorem Stack.read_blameless {V : Type} (stack : Stack σ V) : (stack.read now id).Blameless := by
  intro s table field reason
  unfold Stack.read
  split <;> exact nofun

theorem TableStack.writePatch_blameless (o : TableStack σ) (id? : Option String) (patch : Record) :
    (o.writePatch now id? patch).Blameless := by
  cases id? with
  | none => exact o.stack.write_blameless _
  | some _ =>
    have hupdate : ∀ derive, (o.stack.update now patch.id derive).Blameless := fun derive =>
      .bind o.stack.read_blameless fun _ => .bind (o.stack.write_blameless _) fun _ => .pure _
    exact .bind (hupdate _) fun _ => .pure _

namespace Table

variable (t : Table σ) (expiry : Int64)

theorem mark_blameless : (t.mark now id expiry).Blameless :=
  .bind (.storage _) fun _ => .pure _

theorem writeFields_blameless (fields : List (String × Value)) :
    (t.writeFields now id expiry fields).Blameless := by
  induction fields with
  | nil => exact .pure ()
  | cons field rest ih =>
    rw [writeFields]
    split
    · exact .bind (.storage _) fun _ => ih
    · exact ih

theorem replaceFields_blameless (record : Record) (columns : List (String × Backend σ)) :
    (replaceFields now record expiry columns).Blameless := by
  induction columns with
  | nil => exact .pure ()
  | cons column rest ih =>
    rw [replaceFields]
    split <;> exact .bind (.storage _) fun _ => ih

end Table

/-! ### Writes behind the checks -/

/-- The two checks that a write begins with are one. -/
theorem Table.require_screen (schema : Schema) (id? : Option String) (fields : Fields)
    (x : Action σ StoreError α) :
    (do
      Table.require (id?.elim (.ok ()) schema.checkId)
      Table.require (schema.checkAll fields.toList)
      x) = (do
        Table.require (schema.screen id? fields)
        x) := by
  unfold Schema.screen
  cases id?.elim (.ok ()) schema.checkId <;> rfl

theorem Table.appendExpiring_screened (t : Table σ) (id? : Option String) (fresh : String)
    (fields : List (String × Value)) (expiry : Int64) :
    t.appendExpiring now id? fresh fields expiry = (do
      let record := Record.ofFields (id?.getD fresh) fields
      Table.require (t.schema.screen id? record.fields)
      t.mark now record.id expiry
      t.writeFields now record.id expiry record.fields.toList
      pure record) := by
  rw [appendExpiring_eq]
  exact require_screen _ _ _ _

theorem Table.put_screened (t : Table σ) (record : Record) (expiry : Int64) :
    t.put now record expiry = (do
      Table.require (t.schema.screen (some record.id) record.fields)
      t.mark now record.id expiry
      replaceFields now record expiry t.columns.toList) :=
  require_screen t.schema (some record.id) _ _

theorem TableStack.append_screened (o : TableStack σ) (id? : Option String) (fresh : String)
    (fields : List (String × Value)) :
    o.append now id? fresh fields = (do
      let patch := Record.ofFields (id?.getD fresh) fields
      Table.require (o.schema.screen id? patch.fields)
      o.writePatch now id? patch
      pure patch) := by
  have hfolded : o.append now id? fresh fields = (do
      let patch := Record.ofFields (id?.getD fresh) fields
      Table.require (id?.elim (.ok ()) o.schema.checkId)
      Table.require (o.schema.checkAll patch.fields.toList)
      o.writePatch now id? patch
      pure patch) := by
    cases id? with
    | none => rfl
    | some id =>
      simp only [append, writePatch, bind_assoc]
      rfl
  rw [hfolded]
  exact Table.require_screen _ _ _ _

theorem TableStack.put_screened (o : TableStack σ) (record : Record) :
    o.put now record = (do
      Table.require (o.schema.screen none record.fields)
      o.stack.write now record.id record) := rfl

/-- A call ends in a violation of the schema just when its input is faulty, with the state as it
was and no request made of a map. -/
structure Screened (schema : Schema) (faulty : Prop) (call : Action σ StoreError α)
    (watched : Action (σ × List Request) StoreError α) : Prop where
  /-- Faulty input is refused before anything is asked. -/
  refused : faulty → ∃ e, schema.IsViolation e ∧
    ∀ s requests, call s = (.error e, s) ∧ watched (s, requests) = (.error e, s, requests)
  /-- Other input is not called a violation. -/
  blameless : ¬faulty → call.Blameless ∧ watched.Blameless

theorem Screened.of_screen {schema : Schema} {id? : Option String} {fields : Fields}
    {x : Action σ StoreError α} {x' : Action (σ × List Request) StoreError α}
    (hx : x.Blameless) (hx' : x'.Blameless) :
    Screened schema (schema.Faulty id? fields.get?)
      (Table.require (schema.screen id? fields) >>= fun _ => x)
      (Table.require (schema.screen id? fields) >>= fun _ => x') where
  refused hfaulty := by
    cases hscreen : schema.screen id? fields with
    | ok _ => exact absurd hfaulty (Schema.screen_eq_ok_iff.1 hscreen)
    | error e => exact ⟨e, Schema.isViolation_of_screen hscreen, fun _ _ => ⟨rfl, rfl⟩⟩
  blameless hsound := by
    rw [Schema.screen_eq_ok_iff.2 hsound]
    exact ⟨hx, hx'⟩

/-! ### Stacks of tables -/

section

variable {ι : Type} (operation : String) (label : ι → String) (act : ι → Action σ StoreError α)
  {members : List ι} {e : StoreError} {s : σ}

theorem attemptEach_refused (h : ∀ m ∈ members, act m s = (.error e, s)) :
    attemptEach act members s = (members.map fun _ => .error e, s) := by
  induction members with
  | nil => rfl
  | cons m rest ih =>
    rw [attemptEach, h m List.mem_cons_self]
    simp only [ih fun n hn => h n (List.mem_cons_of_mem m hn), List.map_cons]

theorem failuresFrom_refused (place : Nat) (members : List ι) (e : StoreError) :
    failuresFrom label place members (members.map fun _ => (.error e : Except StoreError α)) =
      members.mapIdx fun i m => ⟨place + i, label m, e⟩ := by
  induction members generalizing place with
  | nil => rfl
  | cons m rest ih =>
    rw [List.map_cons, failuresFrom, ih, List.mapIdx_cons]
    simp only [Nat.add_zero, Nat.add_assoc, Nat.add_comm 1]

/-- A fan-out of which every member refuses in the same way, and does nothing. -/
theorem fanOut_refused (hsome : members ≠ []) (h : ∀ m ∈ members, act m s = (.error e, s)) :
    fanOut operation label act members s = (.error (.partialFailure operation members.length
      (members.mapIdx fun i m => ⟨i, label m, e⟩)), s) := by
  obtain ⟨m, rest, rfl⟩ := List.exists_cons_of_ne_nil hsome
  simp only [fanOut, attemptEach_refused act h, failuresFrom_refused, List.mapIdx_cons,
    Nat.zero_add]

end

/-- What every table of a stack answers when a record is put without an identifier. -/
def TableStack.unidentified (o : TableStack σ) : StoreError :=
  .partialFailure "write" o.tables.length (o.tables.mapIdx fun i t =>
    ⟨i, t.label, o.schema.violation idField "identifier must not be empty"⟩)

/-- Places are counted as well behind a map. -/
theorem mapIdx_map {κ ι β : Type} (f : κ → ι) (g : Nat → ι → β) (l : List κ) :
    (l.map f).mapIdx g = l.mapIdx fun i k => g i (f k) := by
  refine List.ext_getElem? fun i => ?_
  rw [List.getElem?_mapIdx, List.getElem?_mapIdx, List.getElem?_map, Option.map_map]
  rfl

/-- Tables of one schema refuse to store without an identifier, and ask nothing. -/
theorem Stack.write_unidentified {schema : Schema} {tables : List (Table σ)} (hsome : tables ≠ [])
    (hschemas : ∀ t ∈ tables, t.schema = schema) (name : String) (lifespan : UInt64) (ticket : Nat)
    (now : Int64) (record : Record) (s : σ) :
    Stack.write ⟨name, tables.map Table.layer, lifespan, ticket⟩ now "" record s =
      (.error (.partialFailure "write" tables.length (tables.mapIdx fun i t =>
        ⟨i, t.label, schema.violation idField "identifier must not be empty"⟩)), s) := by
  have hlayers : tables.map Table.layer ≠ [] := by simpa using hsome
  have hstore : ∀ l ∈ tables.map Table.layer, l.store now "" record (expiryAfter now lifespan) s =
      (.error (schema.violation idField "identifier must not be empty"), s) := by
    intro l hl
    obtain ⟨t, ht, rfl⟩ := List.mem_map.1 hl
    rw [← hschemas t ht]
    rfl
  have hrefused := fanOut_refused "write" Layer.label _ hlayers hstore
  rw [List.length_map, mapIdx_map] at hrefused
  exact Action.bind_error hrefused _

namespace TableStack

variable [PolicyKeeper σ] {tables : List (Table σ)} {settings : Settings} {o : TableStack σ}
  {s₀ s₁ : σ}

/-- A stack is put together of some tables that have one schema, and these are its layers. -/
theorem uniform_of_ofTables (h : ofTables tables settings s₀ = (.ok o, s₁)) :
    o.tables ≠ [] ∧ o.stack.layers = o.tables.map Table.layer ∧
      ∀ t ∈ o.tables, t.schema = o.schema := by
  cases tables with
  | nil => cases h
  | cons first rest =>
    unfold ofTables at h
    cases hsame : rest.find? fun t => t.schema != first.schema with
    | some other =>
      simp only [hsame] at h
      cases h
    | none =>
      simp only [hsame] at h
      obtain ⟨stack, u, hcompose, hrest⟩ := Action.exists_of_bind_ok h
      obtain rfl := Except.ok.inj (congrArg Prod.fst hrest)
      have hkept : (Stack.compose first.schema.table ((first :: rest).map Table.layer)
          settings).Delivers (fun _ : σ => True) _ :=
        Stack.compose_delivers (fun _ _ => trivial) (fun _ _ _ _ => trivial) _ _ _
      refine ⟨List.cons_ne_nil first rest, (hkept.good trivial hcompose).2, ?_⟩
      refine List.forall_mem_cons.2 ⟨rfl, fun t ht => ?_⟩
      simpa using List.find?_eq_none.1 hsame t ht

/-- A record without an identifier, but without any other fault, gets past the stack: every table
refuses it, and no map is asked. -/
theorem put_unidentified (h : ofTables tables settings s₀ = (.ok o, s₁)) (now : Int64)
    {record : Record} (hempty : record.id = "")
    (hsound : ¬o.schema.Faulty none record.fields.get?) (s : σ) (requests : List Request) :
    o.put now record s = (.error o.unidentified, s) ∧
      o.noted.put now record (s, requests) = (.error o.unidentified, s, requests) := by
  obtain ⟨hsome, hlayers, hschemas⟩ := uniform_of_ofTables h
  have hwatched : ∀ t ∈ o.tables.map Table.noted, t.schema = o.schema :=
    List.forall_mem_map.2 hschemas
  have hplain := Stack.write_unidentified hsome hschemas o.stack.name o.stack.lifespan
    o.stack.ticket now record s
  have hnoted := Stack.write_unidentified (mt List.map_eq_nil_iff.1 hsome) hwatched o.stack.name
    o.stack.lifespan o.stack.ticket now record (s, requests)
  rw [← hlayers] at hplain
  rw [List.length_map, mapIdx_map] at hnoted
  have hscreen := Schema.screen_eq_ok_iff.2 hsound
  have hscreen' : o.noted.schema.screen none record.fields = .ok () := hscreen
  rw [put_screened, put_screened, hscreen, hscreen', hempty]
  exact ⟨hplain, hnoted⟩

/-- **Faulty writes are refused on the spot, and only they are called violations.**  Appending to a
table or to a stack and putting into a table end in a violation of the schema just when the input
is faulty, and then the state is as it was and no map was asked.  Putting into a stack does so
too, unless the identifier is empty and nothing else is wrong: then the answer is the partial
failure of all tables, though no map was asked either.  A value that is appended with a later one
for its field has no part in this, nor in what is written. -/
theorem writes_screened (h : ofTables tables settings s₀ = (.ok o, s₁)) (now : Int64) :
    (∀ (t : Table σ) (id? : Option String) (fresh : String) (fields : List (String × Value))
        (expiry : Int64),
      Screened t.schema (t.schema.Faulty id? (lastSupplied fields))
        (t.appendExpiring now id? fresh fields expiry)
        (t.noted.appendExpiring now id? fresh fields expiry)) ∧
    (∀ (t : Table σ) (record : Record) (expiry : Int64),
      Screened t.schema (t.schema.Faulty (some record.id) record.fields.get?)
        (t.put now record expiry) (t.noted.put now record expiry)) ∧
    (∀ (id? : Option String) (fresh : String) (fields : List (String × Value)),
      Screened o.schema (o.schema.Faulty id? (lastSupplied fields))
        (o.append now id? fresh fields) (o.noted.append now id? fresh fields)) ∧
    (∀ record : Record,
      (Screened o.schema (o.schema.Faulty (some record.id) record.fields.get?)
          (o.put now record) (o.noted.put now record) ↔
        (record.id = "" → o.schema.Faulty none record.fields.get?)) ∧
      (record.id = "" → ¬o.schema.Faulty none record.fields.get? → ∀ s requests,
        o.put now record s = (.error o.unidentified, s) ∧
          o.noted.put now record (s, requests) = (.error o.unidentified, s, requests))) ∧
    ∀ (id? : Option String) (fresh : String) (fields fields' : List (String × Value)),
      lastSupplied fields = lastSupplied fields' →
      (∀ (t : Table σ) (expiry : Int64), t.appendExpiring now id? fresh fields expiry =
        t.appendExpiring now id? fresh fields' expiry) ∧
      o.append now id? fresh fields = o.append now id? fresh fields' := by
  have hsupplied : ∀ id fields, (Record.ofFields id fields).fields.get? = lastSupplied fields :=
    fun id fields => funext (Record.get?_ofFields id fields)
  have hput : ∀ record : Record, Screened o.schema (o.schema.Faulty none record.fields.get?)
      (o.put now record) (o.noted.put now record) := fun record =>
    .of_screen (o.stack.write_blameless record) (o.noted.stack.write_blameless record)
  refine ⟨fun t id? fresh fields expiry => ?_, fun t record expiry => ?_,
    fun id? fresh fields => ?_, fun record => ⟨⟨fun hscreened hempty => ?_, fun himplied => ?_⟩,
      put_unidentified h now⟩, fun id? fresh fields fields' hlast => ⟨fun t expiry => ?_, ?_⟩⟩
  · rw [← hsupplied (id?.getD fresh), Table.appendExpiring_screened, Table.appendExpiring_screened]
    exact .of_screen (.bind (t.mark_blameless expiry) fun _ =>
        .bind (t.writeFields_blameless expiry _) fun _ => .pure _)
      (.bind (t.noted.mark_blameless expiry) fun _ =>
        .bind (t.noted.writeFields_blameless expiry _) fun _ => .pure _)
  · rw [Table.put_screened, Table.put_screened]
    exact .of_screen
      (.bind (t.mark_blameless expiry) fun _ => Table.replaceFields_blameless expiry record _)
      (.bind (t.noted.mark_blameless expiry) fun _ => Table.replaceFields_blameless expiry record _)
  · rw [← hsupplied (id?.getD fresh), append_screened, append_screened]
    exact .of_screen (.bind (o.writePatch_blameless id? _) fun _ => .pure _)
      (.bind (o.noted.writePatch_blameless id? _) fun _ => .pure _)
  · by_contra hsound
    obtain ⟨e, ⟨field, reason, rfl⟩, hrefused⟩ :=
      hscreened.refused (.unidentified (congrArg some hempty))
    have hrun := (put_unidentified h now hempty hsound s₀ []).1
    rw [(hrefused s₀ []).1] at hrun
    cases hrun
  · rw [Schema.faulty_some_iff himplied]
    exact hput record
  · simp only [Table.appendExpiring, Record.ofFields_of_lastSupplied hlast]
  · simp only [append, Record.ofFields_of_lastSupplied hlast]

/-- Two tables of items, put together. -/
def itemStack : TableStack Site :=
  Layout.items.stack Layout.memoryVault.backend [0, 1] 1 (PolicyKeeper.issue Table.untouched).1

theorem writes_screened_items :
    (∃ s, ofTables ([0, 1].map (Layout.items.table Layout.memoryVault.backend)) .default
        Table.untouched = (.ok itemStack, s)) ∧
      itemStack.schema.Faulty (some "r") (lastSupplied [("num", .text "many")]) ∧
      (∃ e, itemStack.schema.IsViolation e ∧ ∀ s requests,
        itemStack.append 0 (some "r") "" [("num", .text "many")] s = (.error e, s) ∧
          itemStack.noted.append 0 (some "r") "" [("num", .text "many")] (s, requests) =
            (.error e, s, requests)) ∧
      ¬itemStack.schema.Faulty none (Record.blank "").fields.get? ∧
      ∀ s, itemStack.put 0 (.blank "") s = (.error itemStack.unidentified, s) := by
  have hvalid : Settings.default.validate = .ok () := by decide +kernel
  have hopened := Layout.items.ofTables_ok Layout.memoryVault.backend hvalid rfl rfl [0] 1
    Table.untouched
  obtain ⟨-, -, happend, hput, -⟩ := writes_screened hopened 0
  have hsupplied : lastSupplied [("num", .text "many")] "num" = some (.text "many") := rfl
  have hdeclared : itemStack.schema.type? "num" = some .integer := by decide +kernel
  have hfaulty : itemStack.schema.Faulty (some "r") (lastSupplied [("num", .text "many")]) :=
    .unaccepted hsupplied hdeclared rfl
  have hsound : ¬itemStack.schema.Faulty none (Record.blank "").fields.get? :=
    Schema.screen_eq_ok_iff.1 rfl
  exact ⟨⟨_, hopened⟩, hfaulty, (happend _ _ _).refused hfaulty, hsound,
    fun s => ((hput (.blank "")).2 rfl hsound s []).1⟩

end TableStack

end LayeredStore
