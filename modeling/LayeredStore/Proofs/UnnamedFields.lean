import LayeredStore.Proofs.Forgetting
import LayeredStore.Proofs.GatedTables
import LayeredStore.Proofs.TableAppends

/-! # Fields that an append does not name

An append to a stack of tables reads the record from the first layer that has it, and what
it makes of that replaces the record in every layer.  So it keeps the fields it does not
name as far as the layers agree on the record; and they do unless a write reached some of
them only.  The stack says so when that happens, so a run can be watched from outside
(`TableStack.follow`): after it the layers agree if every write of the record that was
reported split has been followed by a write or a removal of it that succeeded
(`Layout.follow_settled`).  Then every field that some layer had of it is still there after
an append that does not name it (`Layout.append_keeps_unnamed`).

After a split write it may not be (`Layout.append_drops_unnamed`).
-/
namespace LayeredStore

open ExpiringMap

/-! ### Appends as writes -/

namespace TableStack

variable {σ : Type} (o : TableStack σ) (now : Int64)

/-- Write the fields of a record into every layer, over those that the stack has of it if it
was named. -/
def writePatch (id? : Option String) (patch : Record) : Action σ StoreError Unit :=
  match id? with
  | none => o.stack.write now patch.id patch
  | some _ => do
    let _ ← o.stack.update now patch.id fun current? =>
      (current?.getD (.blank patch.id)).merge patch

/-- An append is refused by a check, or comes to a write of its fields. -/
theorem append_cases (id? : Option String) (fresh : String) (fields : List (String × Value))
    (s : σ) :
    (∃ e, o.append now id? fresh fields s = (.error e, s)) ∨
    o.schema.checkAll (Record.ofFields (id?.getD fresh) fields).fields.toList = .ok () ∧
      o.append now id? fresh fields s =
        (o.writePatch now id? (.ofFields (id?.getD fresh) fields) >>= fun _ =>
          pure (.ofFields (id?.getD fresh) fields)) s := by
  have hchecked : ∀ (checked : Except StoreError Unit) (x : Action σ StoreError Record),
      (checked = .ok () ∧ (Table.require checked >>= fun _ => x) s = x s) ∨
        ∃ e, (Table.require checked >>= fun _ => x) s = (.error e, s) := by
    intro checked x
    rcases checked with e | _
    · exact .inr ⟨e, rfl⟩
    · exact .inl ⟨rfl, rfl⟩
  cases id? with
  | none =>
    rcases hchecked (o.schema.checkAll (Record.ofFields fresh fields).fields.toList) _ with
      ⟨hfields, happend⟩ | hrefused
    · exact .inr ⟨hfields, happend⟩
    · exact .inl hrefused
  | some id =>
    rcases hchecked (o.schema.checkId id) _ with ⟨-, hidentified⟩ | hrefused
    · rcases hchecked (o.schema.checkAll (Record.ofFields id fields).fields.toList) _ with
        ⟨hfields, happend⟩ | ⟨e, hrefused⟩
      · refine .inr ⟨hfields, hidentified.trans (happend.trans ?_)⟩
        unfold writePatch
        rw [bind_assoc]
        rfl
      · exact .inl ⟨e, hidentified.trans hrefused⟩
    · exact .inl hrefused

end TableStack

/-! ### Watching a stack -/

/-- What can be asked of a stack of tables, in any form. -/
inductive TableCall
  | request (r : RecordRequest)
  | withField (name : String)
  | queryText (clause? : Option String) (args : List Value) (order? : Option String)
    (offset limit : Nat)

/-- The values that a request supplies are exact. -/
def RecordRequest.Exact : RecordRequest → Prop
  | .append _ _ fields => ∀ field ∈ fields, field.2.Exact
  | .put record => ∀ field ∈ record.fields.toList, field.2.Exact
  | _ => True

/-- Whether layers are still sure to agree on an identifier after a request with an outcome: a
write of it makes them or makes them unsure, and nothing else makes them unsure. -/
def RecordRequest.settles (id : String) (settled : Bool) :
    (r : RecordRequest) → Except StoreError r.Answer → Bool
  | .append id? fresh _, outcome =>
    if id?.getD fresh = id then stillSettled settled outcome else settled
  | .put record, outcome => if record.id = id then stillSettled settled outcome else settled
  | .remove removed, outcome => if removed = id then settled || outcome.isOk else settled
  | .upkeep verb, outcome => settled || (verb.empties && outcome.isOk)
  | .get _, _ | .keys, _ | .query _, _ | .count _, _ => settled

/-- The values that a call supplies are exact. -/
def TableCall.Exact : TableCall → Prop
  | .request r => r.Exact
  | .withField _ | .queryText _ _ _ _ _ => True

namespace TableStack

variable {σ : Type} [PolicyKeeper σ] (o : TableStack σ) (id : String)

/-- Make a call, and tell from its outcome whether the layers are sure to agree. -/
def observe (now : Int64) : TableCall → Bool × σ → Bool × σ
  | .request r, (settled, s) =>
    match o.perform now r s with
    | (outcome, t) => (r.settles id settled outcome, t)
  | .withField name, (settled, s) => (settled, (o.withField now name s).2)
  | .queryText clause? args order? offset limit, (settled, s) =>
    (settled, (o.queryText now clause? args order? offset limit s).2)

/-- Make calls, each at a time. -/
def follow (calls : List (Int64 × TableCall)) (start : Bool × σ) : Bool × σ :=
  calls.foldl (fun x call => o.observe id call.1 call.2 x) start

end TableStack

/-! ### Calls keep settled layers settled -/

theorem exists_mem_of_lastSupplied {fields : List (String × Value)} {f : String} {value : Value}
    (h : lastSupplied fields f = some value) : ∃ field ∈ fields, field.2 = value := by
  obtain ⟨field, hfind, rfl⟩ := Option.map_eq_some_iff.1 h
  exact ⟨field, List.mem_reverse.1 (List.mem_of_find?_eq_some hfind), rfl⟩

theorem lastSupplied_eq_none_iff {fields : List (String × Value)} {f : String} :
    lastSupplied fields f = none ↔ ∀ field ∈ fields, normalizeName field.1 ≠ f := by
  simp [lastSupplied]

namespace Layout

variable {σ κ ι : Type} [PolicyKeeper σ] [DecidableEq ι] [DecidableEq κ] {L : Layout κ ι}
  {v : Vault σ ι} {sound : σ → Prop} {now : Int64} {s : σ} {id : String} {settled : Bool}

omit [PolicyKeeper σ] [DecidableEq ι] [DecidableEq κ] in
/-- Exact fields that the checks let pass make up a record that can be written. -/
theorem storable_ofFields {fields : List (String × Value)}
    (hexact : ∀ field ∈ fields, field.2.Exact)
    (hcheck : L.schema.checkAll (Record.ofFields id fields).fields.toList = .ok ()) :
    L.Storable (.ofFields id fields) := by
  refine .of_exact hcheck fun f value hvalue => ?_
  rw [Record.get?_ofFields] at hvalue
  obtain ⟨field, hfield, rfl⟩ := exists_mem_of_lastSupplied hvalue
  exact hexact field hfield

variable (hv : v.Reliable sound) (g : v.Gates sound κ) {ks : List κ} (answering : κ)
  (ticket : Nat)

/-- What an append makes of a record that was read is stored with its declared fields. -/
theorem stores_patched {patch : Record} (hpatch : L.Storable patch) (expiry : Int64)
    {current? : Option Record} (hcurrent : ∀ r ∈ current?, L.Fits patch.id r) :
    (gatedTiers hv g L).Stores now patch.id ((current?.getD (.blank patch.id)).merge patch) expiry
      (((current?.getD (.blank patch.id)).merge patch).only L.fields) := by
  have hcurrent : L.Storable (current?.getD (.blank patch.id)) ∧
      (current?.getD (.blank patch.id)).id = patch.id := by
    cases current? with
    | none => exact ⟨storable_blank _, rfl⟩
    | some r => exact ⟨(hcurrent r rfl).storable, (hcurrent r rfl).id⟩
  have hid : ((current?.getD (.blank patch.id)).merge patch).id = patch.id := hcurrent.2
  have hmerged := hcurrent.1.merge hpatch
  generalize (current?.getD (.blank patch.id)).merge patch = merged at hid hmerged ⊢
  rw [← hid]
  exact gatedTiers_stores hv g hmerged expiry

section

variable (h : (gatedTiers hv g L).Settled now ks id settled s)
include h

/-- What a check refuses leaves the layers as settled as they were. -/
theorem refused_settled (other : String) (e : StoreError) :
    (gatedTiers hv g L).Settled now ks id
      (if other = id then stillSettled settled (.error e : Except StoreError Unit) else settled)
      s := by
  refine h.mono fun hstill => ?_
  split at hstill
  · exact (Bool.and_eq_true_iff.1 hstill).1
  · exact hstill

/-- A write of an append settles the layers as any other does. -/
theorem writePatch_settled (id? : Option String) {patch : Record} (hpatch : L.Storable patch) :
    (gatedTiers hv g L).Settled now ks id
      (if patch.id = id then stillSettled settled
          ((L.gatedStack g ks answering ticket).writePatch now id? patch s).1
        else settled)
      ((L.gatedStack g ks answering ticket).writePatch now id? patch s).2 := by
  have layers : (L.gatedStack g ks answering ticket).stack.layers =
      ks.map (gatedTiers hv g L).layer := rfl
  cases id? with
  | none => exact h.write layers (gatedTiers_stores hv g hpatch (expiryAfter now L.lifespan))
  | some other =>
    have hupdate := h.update layers fun current? hcurrent =>
      stores_patched hv g hpatch (expiryAfter now L.lifespan) hcurrent
    have hwrite : (L.gatedStack g ks answering ticket).writePatch now (some other) patch s =
        ((L.gatedStack g ks answering ticket).stack.update now patch.id (fun current? =>
          (current?.getD (.blank patch.id)).merge patch) >>= fun _ => pure ()) s := rfl
    rw [hwrite, Action.bind_apply]
    generalize (L.gatedStack g ks answering ticket).stack.update now patch.id _ s = updated
      at hupdate ⊢
    obtain ⟨e | _, t⟩ := updated <;> exact hupdate

theorem append_settled {id? : Option String} {fresh : String} {fields : List (String × Value)}
    (hexact : ∀ field ∈ fields, field.2.Exact) :
    (gatedTiers hv g L).Settled now ks id
      ((RecordRequest.append id? fresh fields).settles id settled
        ((L.gatedStack g ks answering ticket).append now id? fresh fields s).1)
      ((L.gatedStack g ks answering ticket).append now id? fresh fields s).2 := by
  rcases (L.gatedStack g ks answering ticket).append_cases now id? fresh fields s with
    ⟨e, hrefused⟩ | ⟨hcheck, happend⟩
  · rw [hrefused]
    exact refused_settled hv g h _ e
  · have hstorable : L.Storable (.ofFields (id?.getD fresh) fields) :=
      storable_ofFields hexact hcheck
    have hwritten := writePatch_settled hv g answering ticket h id? hstorable
    rw [Record.id_ofFields] at hwritten
    rw [happend, Action.bind_apply]
    generalize (L.gatedStack g ks answering ticket).writePatch now id? _ s = written
      at hwritten ⊢
    obtain ⟨e | _, t⟩ := written <;> exact hwritten

/-- **A request keeps settled what it says it does.** -/
theorem perform_settled {r : RecordRequest} (hexact : r.Exact) :
    (gatedTiers hv g L).Settled now ks id
      (r.settles id settled ((L.gatedStack g ks answering ticket).perform now r s).1)
      ((L.gatedStack g ks answering ticket).perform now r s).2 := by
  have layers : (L.gatedStack g ks answering ticket).stack.layers =
      ks.map (gatedTiers hv g L).layer := rfl
  have hquery : ∀ raw, ∀ b ∈ (L.gatedStack g ks answering ticket).queryTable.maps,
      b.KeepsOn now Request.Looks (v.Has sound now · raw) :=
    fun raw => maps_keep hv g answering
  cases r with
  | append id? fresh fields => exact append_settled hv g answering ticket h hexact
  | put record =>
    have hput : (L.gatedStack g ks answering ticket).perform now (.put record) s =
        (Table.require (L.schema.checkAll record.fields.toList) >>= fun _ =>
          (L.gatedStack g ks answering ticket).stack.write now record.id record) s := rfl
    rw [hput]
    cases hcheck : L.schema.checkAll record.fields.toList with
    | error e => exact refused_settled hv g h record.id e
    | ok _ =>
      have hstorable : L.Storable record := .of_exact hcheck fun f value hvalue =>
        hexact (f, value) ((Dictionary.get?_eq_some_iff record.fields f value).1 hvalue)
      exact h.write layers (gatedTiers_stores hv g hstorable (expiryAfter now L.lifespan))
  | get other => exact h.read layers other
  | remove other => exact h.remove layers other
  | keys => exact settled_of_keeps hv g (fun raw => Table.keys_keeps (hquery raw) trivial) s h
  | query q =>
    have hkeeps := fun raw => Table.query_keeps (hquery raw) trivial (fun _ => trivial) q
    exact settled_of_keeps hv g hkeeps s h
  | count q =>
    have hkeeps := fun raw => Table.count_keeps (hquery raw) trivial (fun _ => trivial) q
    exact settled_of_keeps hv g hkeeps s h
  | upkeep verb => exact h.upkeep layers verb

end

/-- **What is observed of a call is right.** -/
theorem observe_settled {x : Bool × σ} (h : (gatedTiers hv g L).Settled now ks id x.1 x.2)
    {call : TableCall} (hexact : call.Exact) :
    (gatedTiers hv g L).Settled now ks id
      ((L.gatedStack g ks answering ticket).observe id now call x).1
      ((L.gatedStack g ks answering ticket).observe id now call x).2 := by
  have hquery : ∀ raw, ∀ b ∈ (L.gatedStack g ks answering ticket).queryTable.maps,
      b.KeepsOn now Request.Looks (v.Has sound now · raw) :=
    fun raw => maps_keep hv g answering
  obtain ⟨settled, s⟩ := x
  cases call with
  | request r => exact perform_settled hv g answering ticket h hexact
  | withField name =>
    have hkeeps := fun raw => Table.withField_keeps (hquery raw) trivial (fun _ => trivial) name
    exact settled_of_keeps hv g hkeeps s h
  | queryText clause? args order? offset limit =>
    have hkeeps := fun raw => Table.queryText_keeps (hquery raw) trivial (fun _ => trivial) clause?
      args order? offset limit
    exact settled_of_keeps hv g hkeeps s h

/-- **So what is observed of a run is right.** -/
theorem follow_settled {start : Int64} {x : Bool × σ}
    (h : (gatedTiers hv g L).Settled start ks id x.1 x.2) {calls : List (Int64 × TableCall)}
    (clock : (start :: calls.map Prod.fst ++ [now]).Pairwise (· ≤ ·))
    (hexact : ∀ call ∈ calls, call.2.Exact) :
    (gatedTiers hv g L).Settled now ks id
      ((L.gatedStack g ks answering ticket).follow id calls x).1
      ((L.gatedStack g ks answering ticket).follow id calls x).2 := by
  induction calls generalizing start x with
  | nil =>
    have hle : start ≤ now := by simpa using clock
    exact h.later hle
  | cons call rest ih =>
    have hle : start ≤ call.1 := (List.pairwise_cons.1 clock).1 call.1 (by simp)
    have hcall := observe_settled hv g answering ticket (h.later hle)
      (hexact call List.mem_cons_self)
    exact ih hcall (List.pairwise_cons.1 clock).2 fun other hother =>
      hexact other (List.mem_cons_of_mem call hother)

/-! ### Appends keep the fields they do not name -/

omit [DecidableEq ι] [DecidableEq κ] in
/-- An append that succeeds is an update that does. -/
theorem exists_update_of_append {fresh : String} {fields : List (String × Value)} {patch : Record}
    {s' : σ} (h : (L.gatedStack g ks answering ticket).append now (some id) fresh fields s =
      (.ok patch, s')) :
    L.schema.checkAll (Record.ofFields id fields).fields.toList = .ok () ∧
      ∃ merged, (L.gatedStack g ks answering ticket).stack.update now (Record.ofFields id fields).id
        (fun current? => (current?.getD (.blank (Record.ofFields id fields).id)).merge
          (.ofFields id fields)) s = (.ok merged, s') := by
  rcases (L.gatedStack g ks answering ticket).append_cases now (some id) fresh fields s with
    ⟨e, hrefused⟩ | ⟨hcheck, hwrite⟩
  · rw [hrefused] at h
    cases h
  · rw [hwrite] at h
    obtain ⟨_, t, hpatch, hanswer⟩ := Action.exists_of_bind_ok h
    obtain ⟨merged, u, hupdate, hdone⟩ := Action.exists_of_bind_ok hpatch
    cases hanswer
    cases hdone
    exact ⟨hcheck, merged, hupdate⟩

section

include hv

/-- Where tables agree on a record, an append that succeeds writes its fields over those that
they have. -/
theorem append_agreed {m : κ → ExpiringMap Record} (h : L.Holds v sound now s m)
    (hagree : Agree now ks m id) (hend : now < Int64.maxValue) {fresh : String}
    {fields : List (String × Value)} (hfields : ∀ field ∈ fields, field.2.Exact) {patch : Record}
    {s' : σ} (happend : (L.gatedStack g ks answering ticket).append now (some id) fresh fields s =
      (.ok patch, s')) :
    ∃ m', L.Holds v sound now s' m' ∧ ∀ k ∈ ks, ∀ e, (m k).live? now id = some e →
      (m' k).live? now id =
        some ((e.1.merge (.ofFields id fields)).only L.fields, expiryAfter now L.lifespan) := by
  have layers : (L.gatedStack g ks answering ticket).stack.layers =
      ks.map (gatedTiers hv g L).layer := rfl
  obtain ⟨hcheck, merged, hupdate⟩ := exists_update_of_append g answering ticket happend
  have hid : (Record.ofFields id fields).id = id := Record.id_ofFields id fields
  have hstorable : L.Storable (.ofFields id fields) := storable_ofFields hfields hcheck
  generalize Record.ofFields id fields = supplied at hid hupdate hstorable ⊢
  subst hid
  obtain ⟨current?, m', -, hcurrent, hm', hlive⟩ := Tiers.update_agreed layers h hagree
    (fun current? hfits => stores_patched hv g hstorable _ hfits) hupdate
  refine ⟨m', hm', fun k hk e he => ?_⟩
  rw [hlive k hk, hcurrent k hk e he, Option.filter_some_pos]
  · rfl
  · rw [not_isExpired_expiryAfter hend]
    rfl

/-- **An append that succeeds keeps every field that it does not name**, in every layer, if the
layers agreed when the run began or have been made to, and no write of the record since was
split. -/
theorem append_keeps_unnamed {start : Int64} {s₀ : σ} {m : κ → ExpiringMap Record}
    (hstart : L.Holds v sound start s₀ m) {sure : Bool} (hagree : sure = true → Agree start ks m id)
    {calls : List (Int64 × TableCall)}
    (clock : (start :: calls.map Prod.fst ++ [now]).Pairwise (· ≤ ·))
    (hend : now < Int64.maxValue) (hexact : ∀ call ∈ calls, call.2.Exact)
    (hrun : (L.gatedStack g ks answering ticket).follow id calls (sure, s₀) = (true, s))
    {fresh : String} {fields : List (String × Value)} (hfields : ∀ field ∈ fields, field.2.Exact)
    {patch : Record} {s' : σ}
    (happend : (L.gatedStack g ks answering ticket).append now (some id) fresh fields s =
      (.ok patch, s')) {k : κ} (hk : k ∈ ks) :
    ∃ before? t after? t', (L.table v.backend k).get now id s = (.ok before?, t) ∧
      (L.table v.backend k).get now id s' = (.ok after?, t') ∧
      ∀ before ∈ before?, ∀ f value, before.fields.get? f = some value →
        (∀ field ∈ fields, normalizeName field.1 ≠ f) →
        ∃ after ∈ after?, after.fields.get? f = some value := by
  have hsettled : (gatedTiers hv g L).Settled start ks id (sure, s₀).1 (sure, s₀).2 :=
    ⟨m, hstart, hagree⟩
  have hbefore := follow_settled hv g answering ticket hsettled clock hexact
  rw [hrun] at hbefore
  obtain ⟨m₁, hm₁, hagreed⟩ := hbefore
  have hm₁ : L.Holds v sound now s m₁ := hm₁
  obtain ⟨m₂, hm₂, hlive⟩ :=
    append_agreed hv g answering ticket hm₁ (hagreed rfl) hend hfields happend
  obtain ⟨t, ht, -⟩ := get_ok hv hm₁ k id
  obtain ⟨t', ht', -⟩ := get_ok hv hm₂ k id
  refine ⟨_, t, _, t', ht, ht', fun before hfound f value hvalue hunnamed => ?_⟩
  obtain ⟨e, he, rfl⟩ := Option.map_eq_some_iff.1 hfound
  have hdeclared : f ∈ L.fields := by
    obtain ⟨raw, -, hmeans⟩ := hm₁
    exact (hmeans.fits k id e he).declared f value hvalue
  have hnone : (Record.ofFields id fields).fields.get? f = none := by
    rw [Record.get?_ofFields, lastSupplied_eq_none_iff]
    exact hunnamed
  refine ⟨(e.1.merge (.ofFields id fields)).only L.fields, ?_, ?_⟩
  · rw [hlive k hk e he]
    rfl
  · rw [Record.get?_only, if_pos hdeclared, Record.get?_merge_of_none hnone, hvalue]

end

/-! ### A split write -/

/-- At second one, the upper of two tables refuses to store anything. -/
def storesRefused : memoryVault.Gates (Site.Sound (fun _ => .memory) fun _ => false) Nat where
  layer k r time s :=
    match r with
    | .store _ _ _ =>
      (if k = 0 ∧ time = 1 then some (.storage (.unavailable "items is down")) else none, s)
    | .fetch _ | .discard _ | .upkeep _ => (none, s)
  map _ _ s := (none, s)
  layer_has k r time h := by
    cases r <;> exact h
  map_has _ _ h := h

/-- The two tables of items as a stack. -/
def gatedItems : TableStack Site := items.gatedStack storesRefused [0, 1] 1 0

/-- The lower table. -/
def lowerItems : Table Site := items.table memoryVault.backend 1

/-- An item gets a number, and a second later a text, which only the lower table takes. -/
def splitCalls : List (Int64 × TableCall) :=
  [(0, .request (.append (some "r") "" [("num", .integer 42)])),
    (1, .request (.append (some "r") "" [("str_val", .text "test")]))]

/-- Then it gets the text once more. -/
def mendedCalls : List (Int64 × TableCall) :=
  splitCalls ++ [(2, .request (.append (some "r") "" [("str_val", .text "test")]))]

/-- The answer to a new number. -/
def number : Record := ⟨"r", .ofList [("num", .integer 43)]⟩

/-- What is seen if the item gets a new number after calls: whether the tables were sure to
agree, the answer, and what the lower table has of the item before and after. -/
def renumbering (calls : List (Int64 × TableCall)) (now : Int64) :
    Bool × Option Record × Option (Option Record) × Option (Option Record) :=
  match gatedItems.follow "r" calls (true, .ofVolumes default []) with
  | (sure, s) =>
    match gatedItems.append now (some "r") "" [("num", .integer 43)] s with
    | (answer, s') =>
      (sure, answer.toOption, (lowerItems.get now "r" s).1.toOption,
        (lowerItems.get now "r" s').1.toOption)

theorem exists_of_renumbering {calls : List (Int64 × TableCall)} {now : Int64} {sure : Bool}
    {before? after? : Option Record}
    (h : renumbering calls now = (sure, some number, some before?, some after?)) :
    ∃ s s' t t',
      gatedItems.follow "r" calls (true, .ofVolumes default []) = (sure, s) ∧
      gatedItems.append now (some "r") "" [("num", .integer 43)] s = (.ok number, s') ∧
      lowerItems.get now "r" s = (.ok before?, t) ∧
      lowerItems.get now "r" s' = (.ok after?, t') := by
  unfold renumbering at h
  rcases hrun : gatedItems.follow "r" calls (true, .ofVolumes default []) with ⟨b, s⟩
  rw [hrun] at h
  rcases happend : gatedItems.append now (some "r") "" [("num", .integer 43)] s with ⟨answer, s'⟩
  simp only [happend, Prod.mk.injEq] at h
  obtain ⟨rfl, hanswer, hbefore, hafter⟩ := h
  have hget : ∀ {u a?}, (lowerItems.get now "r" u).1.toOption = some a? →
      ∃ t, lowerItems.get now "r" u = (.ok a?, t) := by
    intro u a? hu
    obtain ⟨t, ht, -⟩ : ∃ t, lowerItems.get now "r" u = (.ok a?, t) ∧ True := Yields.ok ⟨hu, trivial⟩
    exact ⟨t, ht⟩
  obtain ⟨t, ht⟩ := hget hbefore
  obtain ⟨t', ht'⟩ := hget hafter
  cases answer with
  | error e => cases hanswer
  | ok patch =>
    obtain rfl := Option.some.inj hanswer
    exact ⟨s, s', t, t', rfl, happend, ht, ht'⟩

/-- The upper table, which is read first, missed the text; so the next append takes it from the
lower table as well. -/
theorem append_drops_unnamed :
    ∃ s s' t t',
      gatedItems.follow "r" splitCalls (true, .ofVolumes default []) = (false, s) ∧
      gatedItems.append 2 (some "r") "" [("num", .integer 43)] s = (.ok number, s') ∧
      lowerItems.get 2 "r" s = (.ok (some item), t) ∧
      lowerItems.get 2 "r" s' = (.ok (some number), t') ∧
      item.fields.get? "str_val" = some (.text "test") ∧
      number.fields.get? "str_val" = none := by
  have hseen : renumbering splitCalls 2 = (false, some number, some (some item), some (some number)) :=
    by decide +kernel
  obtain ⟨s, s', t, t', hrun, happend, hbefore, hafter⟩ := exists_of_renumbering hseen
  exact ⟨s, s', t, t', hrun, happend, hbefore, hafter, by decide, by decide⟩

/-- Once the text has been written to both tables, it stays. -/
theorem append_keeps_unnamed_mended :
    ∃ s s' after? t',
      gatedItems.follow "r" mendedCalls (true, .ofVolumes default []) = (true, s) ∧
      gatedItems.append 3 (some "r") "" [("num", .integer 43)] s = (.ok number, s') ∧
      lowerItems.get 3 "r" s' = (.ok after?, t') ∧
      ∃ after ∈ after?, after.fields.get? "str_val" = some (.text "test") := by
  have hsound : Site.Sound (fun _ => .memory) (fun _ => false) (.ofVolumes default []) :=
    .ofVolumes fun _ => .new .memory false
  have hvolume : ∀ n, (Site.volume n).read (.ofVolumes default []) = .new .memory false := fun n =>
    Site.read_volume_ofVolumes default [] n
  have hempty : ∀ i, Site.bareContents .memory i (.ofVolumes default []) = ExpiringMap.empty := fun i =>
    Site.bareContents_new (hvolume i.1)
  have hmirrors : items.Mirrors memoryVault (Site.Sound (fun _ => .memory) fun _ => false) [0, 1] 1
      0 (.ofVolumes default []) .empty := .empty hsound fun _ i _ => hempty i
  obtain ⟨m, hm, hcaches⟩ := hmirrors
  have hseen : renumbering mendedCalls 3 = (true, some number, some (some item),
      some (some ⟨"r", .ofList [("num", .integer 43), ("str_val", .text "test")]⟩)) := by
    decide +kernel
  obtain ⟨s, s', _, _, hrun, happend, hitem, -⟩ := exists_of_renumbering hseen
  have hnumber : ∀ n, (Value.integer n).Exact := fun n => nofun
  have htext : ∀ text, (Value.text text).Exact := fun text => nofun
  have hexact : ∀ call ∈ mendedCalls, call.2.Exact := by
    intro call hcall
    simp only [mendedCalls, splitCalls, List.cons_append, List.nil_append, List.mem_cons,
      List.not_mem_nil, or_false] at hcall
    rcases hcall with rfl | rfl | rfl
    · exact List.forall_mem_singleton.2 (hnumber 42)
    · exact List.forall_mem_singleton.2 (htext "test")
    · exact List.forall_mem_singleton.2 (htext "test")
  obtain ⟨before?, t, after?, t', hbefore, hafter, hkeeps⟩ := append_keeps_unnamed
    (Site.vault_reliable _ _) storesRefused 1 0 hm (fun _ => (hcaches "r").agree) (by decide)
    (by decide) hexact hrun (List.forall_mem_singleton.2 (hnumber 43)) happend
    (List.mem_cons_of_mem 0 List.mem_cons_self)
  refine ⟨s, s', after?, t', hrun, happend, hafter, ?_⟩
  obtain rfl : some item = before? := Except.ok.inj (Prod.mk.inj (hitem.symm.trans hbefore)).1
  exact hkeeps item rfl "str_val" (.text "test") (by decide)
    (List.forall_mem_singleton.2 (by decide))

end Layout

end LayeredStore
