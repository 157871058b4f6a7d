import LayeredStore.Proofs.RecordMap

/-! # What operations leave alone

An operation of a table or a stack is made of requests to the maps below, so whatever every
one of these requests keeps, the whole operation keeps, be it answered or not, whatever
fails on the way (`Action.Keeps`).  `RecordRequest.Makes` says which requests a request to
a stack of tables may come to, and `TableStack.perform_keeps` is the frame of all of them;
`Stack.KeepsOn` is that of layered maps.
-/
namespace LayeredStore

/-- Whatever an action comes to, it keeps what holds of the state. -/
def Action.Keeps {σ ε α : Type} (x : Action σ ε α) (holds : σ → Prop) : Prop :=
  ∀ s, holds s → holds (x s).2

namespace Action.Keeps

variable {σ ε ε' α β : Type} {holds : σ → Prop}

theorem pure (a : α) : (Pure.pure a : Action σ ε α).Keeps holds := fun _ h => h

theorem fail (e : ε) : (Action.fail e : Action σ ε α).Keeps holds := fun _ h => h

theorem ofExcept (x : Except ε α) : (Action.ofExcept x : Action σ ε α).Keeps holds := fun _ h => h

theorem bind {x : Action σ ε α} {f : α → Action σ ε β} (hx : x.Keeps holds)
    (hf : ∀ a, (f a).Keeps holds) : (x >>= f).Keeps holds := by
  intro s hs
  have hx := hx s hs
  rw [Action.bind_apply]
  generalize x s = result at hx ⊢
  obtain ⟨_ | a, t⟩ := result
  · exact hx
  · exact hf a t hx

theorem mapError {x : Action σ ε α} (hx : x.Keeps holds) (f : ε → ε') :
    (x.mapError f).Keeps holds := by
  intro s hs
  have hx := hx s hs
  unfold Action.mapError
  generalize x s = result at hx ⊢
  obtain ⟨_ | a, t⟩ := result <;> exact hx

end Action.Keeps

/-! ### Work on members -/

section

variable {σ ι α : Type} {holds : σ → Prop} {act : ι → Action σ StoreError α} {members : List ι}

theorem attemptEach_keeps (h : ∀ m ∈ members, (act m).Keeps holds) {s : σ} (hs : holds s) :
    holds (attemptEach act members s).2 := by
  induction members generalizing s with
  | nil => exact hs
  | cons m rest ih =>
    exact ih (fun n hn => h n (List.mem_cons_of_mem m hn)) (h m List.mem_cons_self s hs)

/-- A fan-out keeps what its members keep. -/
theorem fanOut_keeps (h : ∀ m ∈ members, (act m).Keeps holds) (operation : String)
    (label : ι → String) : (fanOut operation label act members).Keeps holds := by
  intro s hs
  have hall := attemptEach_keeps h hs
  rcases fanOut_apply operation label act members s with ⟨results, -, hfan⟩ | ⟨e, hfan⟩ <;>
    rw [hfan] <;> exact hall

theorem Member.upkeepAll_keeps {members : List (Member σ)} {verb : Upkeep} {now : Int64}
    (h : ∀ m ∈ members, (m.upkeep verb now).Keeps holds) :
    (Member.upkeepAll members verb now).Keeps holds :=
  .bind (fanOut_keeps h _ _) fun _ => .pure _

end

/-! ### Tables -/

/-- The key that a request is about. -/
def Request.key? : Request → Option String
  | .get key | .put key _ _ | .remove key | .expiry key | .setExpiry key _ => some key
  | .keys _ | .upkeep _ => none

/-- Requests of some kind, made at a time, keep what holds of the state. -/
def Backend.KeepsOn {σ : Type} (b : Backend σ) (now : Int64) (asked : Request → Prop)
    (holds : σ → Prop) : Prop :=
  ∀ r, asked r → (b.perform r now).Keeps holds

namespace Backend.KeepsOn

variable {σ : Type} {b : Backend σ} {now : Int64} {asked : Request → Prop} {holds : σ → Prop}
  (h : b.KeepsOn now asked holds) {id : String}

include h

theorem column_get (hget : asked (.get id)) : ((Table.column b).get now id).Keeps holds :=
  .bind (h _ hget) fun _ => .ofExcept _

theorem column_put {value : Value} {expiry : Int64}
    (hput : asked (.put id (Stored.bytes value) expiry)) :
    ((Table.column b).put now id value expiry).Keeps holds :=
  .bind (h _ hput) fun _ => .ofExcept _

theorem column_remove (hremove : asked (.remove id)) :
    ((Table.column b).remove now id).Keeps holds :=
  .bind (h _ hremove) fun _ => .ofExcept _

end Backend.KeepsOn

/-- Setting fields does not change the identifier. -/
theorem Record.id_ofFields (id : String) (fields : List (String × Value)) :
    (Record.ofFields id fields).id = id := by
  have hset : ∀ r : Record, (fields.foldl (fun r f => r.set f.1 f.2) r).id = r.id := by
    induction fields with
    | nil => exact fun _ => rfl
    | cons f rest ih => exact fun r => ih (r.set f.1 f.2)
  exact hset (.blank id)

namespace Table

variable {σ : Type} {t : Table σ} {asked : Request → Prop} {holds : σ → Prop} {now : Int64}

/-- A column is one of the maps. -/
theorem mem_maps_of_get? {name : String} {b : Backend σ} (h : t.columns.get? name = some b) :
    b ∈ t.maps := by
  have hmem : (name, b) ∈ t.columns.toList := (Dictionary.get?_eq_some_iff t.columns name b).1 h
  exact List.mem_cons_of_mem _ (List.mem_map_of_mem hmem)

section Reading

variable {id : String}

theorem readFields_keeps {columns : List (String × Backend σ)}
    (h : ∀ c ∈ columns, c.2.KeepsOn now asked holds) (hget : asked (.get id)) :
    (readFields now id columns).Keeps holds := by
  induction columns with
  | nil => exact .pure []
  | cons c rest ih =>
    refine .bind (((h c List.mem_cons_self).column_get hget).mapError _) fun _ => ?_
    exact .bind (ih fun d hd => h d (List.mem_cons_of_mem c hd)) fun _ => .pure _

theorem readExpiringFields_keeps {columns : List (String × Backend σ)} (soonest : Int64)
    (h : ∀ c ∈ columns, c.2.KeepsOn now asked holds) (hid : ∀ r, r.key? = some id → asked r) :
    (readExpiringFields now id soonest columns).Keeps holds := by
  induction columns generalizing soonest with
  | nil => exact .pure _
  | cons c rest ih =>
    have hrest := fun soonest => ih soonest fun d hd => h d (List.mem_cons_of_mem c hd)
    have hc := h c List.mem_cons_self
    refine .bind ((hc.column_get (hid (.get id) rfl)).mapError _) fun value? => ?_
    cases value? with
    | none => exact hrest soonest
    | some value =>
      refine .bind ((hc (.expiry id) (hid _ rfl)).mapError _) fun expiry? => ?_
      cases expiry? with
      | none => exact hrest soonest
      | some expiry => exact .bind (hrest _) fun _ => .pure _

variable (h : ∀ b ∈ t.maps, b.KeepsOn now asked holds)
include h

/-- The columns with their names keep what the maps keep. -/
theorem columns_keep : ∀ c ∈ t.columns.toList, c.2.KeepsOn now asked holds := fun c hc =>
  h c.2 (List.mem_cons_of_mem _ (List.mem_map_of_mem hc))

theorem get_keeps (hget : asked (.get id)) : (t.get now id).Keeps holds :=
  .bind ((h t.index List.mem_cons_self (.get id) hget).mapError _) fun _ =>
    .bind (readFields_keeps (columns_keep h) hget) fun _ => .pure _

theorem getWithExpiry_keeps (hid : ∀ r, r.key? = some id → asked r) :
    (t.getWithExpiry now id).Keeps holds :=
  .bind ((h t.index List.mem_cons_self (.expiry id) (hid _ rfl)).mapError _) fun _ =>
    .bind (readExpiringFields_keeps _ (columns_keep h) hid) fun _ => .pure _

omit h in
theorem unionKeys_keeps {maps : List (Backend σ)} (known : KeySet)
    (h : ∀ b ∈ maps, b.KeepsOn now asked holds) (hkeys : asked (.keys none)) :
    (unionKeys now known maps).Keeps holds := by
  induction maps generalizing known with
  | nil => exact .pure known
  | cons b rest ih =>
    exact .bind ((h b List.mem_cons_self (.keys none) hkeys).mapError _) fun _ =>
      ih _ fun c hc => h c (List.mem_cons_of_mem b hc)

theorem keys_keeps (hkeys : asked (.keys none)) : (t.keys now).Keeps holds :=
  .bind ((h t.index List.mem_cons_self (.keys none) hkeys).mapError _) fun known =>
    unionKeys_keeps known (fun b hb => h b (List.mem_cons_of_mem _ hb)) hkeys

theorem materialize_keeps (hget : ∀ id, asked (.get id)) (ids : List String) :
    (t.materialize now ids).Keeps holds := by
  induction ids with
  | nil => exact .pure []
  | cons id rest ih => exact .bind (get_keeps h (hget id)) fun _ => .bind ih fun _ => .pure _

variable (hkeys : asked (.keys none)) (hget : ∀ id, asked (.get id))
include hkeys hget

theorem scan_keeps (q : Query) : (t.scan now q).Keeps holds :=
  .bind (keys_keeps h hkeys) fun _ => .bind (materialize_keeps h hget _) fun _ => .pure _

theorem query_keeps (q : Query) : (t.query now q).Keeps holds :=
  .bind (scan_keeps h hkeys hget q) fun _ => .pure _

theorem count_keeps (q : Query) : (t.count now q).Keeps holds :=
  .bind (scan_keeps h hkeys hget q) fun _ => .pure _

theorem queryText_keeps (clause? : Option String) (args : List Value) (order? : Option String)
    (offset limit : Nat) : (t.queryText now clause? args order? offset limit).Keeps holds := by
  unfold queryText
  split
  · exact query_keeps h hkeys hget _
  · exact .fail _

theorem withField_keeps (name : String) : (t.withField now name).Keeps holds := by
  unfold withField
  refine .bind (.ofExcept _) fun _ => ?_
  split
  · next b hb =>
    exact .bind ((h b (mem_maps_of_get? hb) (.keys none) hkeys).mapError _) fun ids =>
      materialize_keeps h hget ids.keys
  · exact .bind (.pure _) fun ids => materialize_keeps h hget ids.keys

end Reading

section Writing

variable {id : String} (h : ∀ b ∈ t.maps, b.KeepsOn now asked holds)

theorem replaceFields_keeps {record : Record} (expiry : Int64)
    {columns : List (String × Backend σ)} (h : ∀ c ∈ columns, c.2.KeepsOn now asked holds)
    (hid : ∀ r, r.key? = some record.id → asked r) :
    (replaceFields now record expiry columns).Keeps holds := by
  induction columns with
  | nil => exact .pure ()
  | cons c rest ih =>
    obtain ⟨name, b⟩ := c
    have hrest := ih fun d hd => h d (List.mem_cons_of_mem _ hd)
    have hb : b.KeepsOn now asked holds := h _ List.mem_cons_self
    rw [replaceFields]
    split
    · exact .bind ((hb.column_put (hid _ rfl)).mapError _) fun _ => hrest
    · exact .bind ((hb.column_remove (hid _ rfl)).mapError _) fun _ => hrest

include h

theorem writeFields_keeps (hid : ∀ r, r.key? = some id → asked r) (expiry : Int64)
    (fields : List (String × Value)) : (t.writeFields now id expiry fields).Keeps holds := by
  induction fields with
  | nil => exact .pure ()
  | cons field rest ih =>
    rw [writeFields]
    split
    · next b hb =>
      exact .bind (((h b (mem_maps_of_get? hb)).column_put (hid _ rfl)).mapError _) fun _ => ih
    · exact ih

theorem mark_keeps (hid : ∀ r, r.key? = some id → asked r) (expiry : Int64) :
    (t.mark now id expiry).Keeps holds :=
  .bind ((h t.index List.mem_cons_self (.put id indexMarker expiry) (hid _ rfl)).mapError _)
    fun _ => .pure _

omit h in
/-- Writing some fields is a check of the identifier given, one of the fields, the mark, and
then the fields one after another. -/
theorem appendExpiring_eq (id? : Option String) (fresh : String) (fields : List (String × Value))
    (expiry : Int64) :
    t.appendExpiring now id? fresh fields expiry = (do
      require (id?.elim (.ok ()) t.schema.checkId)
      let record := Record.ofFields (id?.getD fresh) fields
      require (t.schema.checkAll record.fields.toList)
      t.mark now record.id expiry
      t.writeFields now record.id expiry record.fields.toList
      pure record) := by
  cases id? <;> rfl

theorem appendExpiring_keeps {id? : Option String} {fresh : String}
    (hid : ∀ r, r.key? = some (id?.getD fresh) → asked r) (fields : List (String × Value))
    (expiry : Int64) : (t.appendExpiring now id? fresh fields expiry).Keeps holds := by
  rw [appendExpiring_eq]
  rw [← Record.id_ofFields (id?.getD fresh) fields] at hid
  exact .bind (.ofExcept _) fun _ => .bind (.ofExcept _) fun _ => .bind (mark_keeps h hid expiry)
    fun _ => .bind (writeFields_keeps h hid expiry _) fun _ => .pure _

theorem put_keeps {record : Record} (hid : ∀ r, r.key? = some record.id → asked r)
    (expiry : Int64) : (t.put now record expiry).Keeps holds :=
  .bind (.ofExcept _) fun _ => .bind (.ofExcept _) fun _ => .bind (mark_keeps h hid expiry) fun _ =>
    replaceFields_keeps expiry (columns_keep h) hid

theorem remove_keeps (hremove : asked (.remove id)) : (t.remove now id).Keeps holds :=
  .bind (fanOut_keeps (fun b hb => (h b hb (.remove id) hremove).mapError _) _ _) fun _ =>
    .pure _

theorem upkeep_keeps {verb : Upkeep} (hverb : asked (.upkeep verb)) :
    (t.upkeep now verb).Keeps holds := by
  refine Member.upkeepAll_keeps fun m hm => ?_
  obtain ⟨b, hb, rfl⟩ := List.mem_map.1 hm
  exact (h b hb (.upkeep verb) hverb).mapError _

end Writing

end Table

/-! ### Stacks -/

/-- The operations of a layer on an identifier keep what holds of the state. -/
structure Layer.KeepsOn {σ V : Type} (l : Layer σ V) (now : Int64) (id : String)
    (holds : σ → Prop) : Prop where
  fetch : (l.fetch now id).Keeps holds
  store : ∀ value expiry, (l.store now id value expiry).Keeps holds
  discard : (l.discard now id).Keeps holds

/-- A table as a layer keeps what its maps keep. -/
theorem Table.layer_keepsOn {σ : Type} {t : Table σ} {now : Int64} {asked : Request → Prop}
    {holds : σ → Prop} (h : ∀ b ∈ t.maps, b.KeepsOn now asked holds) {id : String}
    (hid : ∀ r, r.key? = some id → asked r) : t.layer.KeepsOn now id holds where
  fetch := getWithExpiry_keeps h hid
  store record expiry := by
    have hput : (t.put now { record with id } expiry).Keeps holds := put_keeps h hid expiry
    exact hput
  discard := remove_keeps h (hid (.remove id) rfl)

/-- A backend as a layer keeps what its requests keep. -/
theorem Backend.KeepsOn.layer {σ : Type} {b : Backend σ} {now : Int64} {asked : Request → Prop}
    {holds : σ → Prop} (h : b.KeepsOn now asked holds) {id : String}
    (hid : ∀ r, r.key? = some id → asked r) : (Layer.ofBackend b).KeepsOn now id holds where
  fetch := by
    refine .mapError (.bind (h (.get id) (hid _ rfl)) fun value? => ?_) _
    cases value? with
    | none => exact .pure none
    | some value =>
      refine .bind (h (.expiry id) (hid _ rfl)) fun expiry? => ?_
      cases expiry? <;> exact .pure _
  store value expiry := .mapError (.bind (h (.put id value expiry) (hid _ rfl))
    fun _ => .pure _) _
  discard := .mapError (.bind (h (.remove id) (hid _ rfl)) fun _ => .pure _) _

section

variable {σ V : Type} {holds : σ → Prop} {id : String} {layers : List (Layer σ V)} {now : Int64}

theorem searchFrom_keeps (h : ∀ l ∈ layers, l.KeepsOn now id holds) (place : Nat) {s : σ}
    (hs : holds s) : holds (searchFrom now id place layers s).2 := by
  induction layers generalizing s place with
  | nil => exact hs
  | cons l rest ih =>
    have hrest := fun place t => ih (fun m hm => h m (List.mem_cons_of_mem l hm)) place (s := t)
    have hfetch := (h l List.mem_cons_self).fetch s hs
    rw [searchFrom]
    generalize l.fetch now id s = fetched at hfetch ⊢
    obtain ⟨e | _ | ⟨value, expiry⟩, t⟩ := fetched
    · exact hrest (place + 1) t hfetch
    · exact hrest (place + 1) t hfetch
    · exact hfetch

theorem populate_keeps (h : ∀ l ∈ layers, l.KeepsOn now id holds) (value : V) (expiry : Int64) {s : σ}
    (hs : holds s) : holds (populate now id value expiry layers s) := by
  induction layers generalizing s with
  | nil => exact hs
  | cons l rest ih =>
    exact ih (fun m hm => h m (List.mem_cons_of_mem l hm))
      ((h l List.mem_cons_self).store value expiry s hs)

end

namespace Stack

variable {σ V : Type} {stack : Stack σ V} {holds : σ → Prop} {id : String} {now : Int64}

section

variable (h : ∀ l ∈ stack.layers, l.KeepsOn now id holds)
include h

theorem read_keeps : (stack.read now id).Keeps holds := by
  intro s hs
  have hsearch := searchFrom_keeps h 0 hs
  unfold read
  generalize searchFrom now id 0 stack.layers s = searched at hsearch ⊢
  obtain ⟨⟨failures, hit?⟩, t⟩ := searched
  rcases hit? with _ | hit
  · cases failures <;> exact hsearch
  · exact populate_keeps (fun l hl => h l (List.mem_of_mem_take hl)) hit.value hit.expiry hsearch

theorem writeExpiring_keeps (value : V) (expiry : Int64) :
    (stack.writeExpiring now id value expiry).Keeps holds :=
  .bind (fanOut_keeps (fun l hl => (h l hl).store value expiry) _ _) fun _ => .pure _

theorem update_keeps (derive : Option V → V) : (stack.update now id derive).Keeps holds :=
  .bind (read_keeps h) fun _ => .bind (writeExpiring_keeps h _ _) fun _ => .pure _

theorem remove_keeps : (stack.remove now id).Keeps holds :=
  .bind (fanOut_keeps (fun l hl => (h l hl).discard) _ _) fun _ => .pure _

end

theorem upkeepLayers_keeps {verb : Upkeep}
    (h : ∀ l ∈ stack.layers, (l.upkeep verb now).Keeps holds) :
    (stack.upkeepLayers now verb).Keeps holds := by
  refine Member.upkeepAll_keeps fun m hm => ?_
  obtain ⟨l, hl, rfl⟩ := List.mem_map.1 hm
  exact h l hl

/-- Upkeep of the cheap kind may come to a full run. -/
theorem upkeep_keeps [PolicyKeeper σ] {verb : Upkeep}
    (h : ∀ l ∈ stack.layers, ∀ carried, carried = verb ∨ carried = .maintenance →
      (l.upkeep carried now).Keeps holds)
    (hpolicy : ∀ p s, holds s → holds ((PolicyKeeper.policy stack.ticket).write p s)) :
    (stack.upkeep now verb).Keeps holds := by
  cases verb with
  | setup | teardown | maintenance | clear =>
    exact upkeepLayers_keeps fun l hl => h l hl _ (.inl rfl)
  | incremental =>
    intro s hs
    rw [upkeep_incremental now (stack.drawEscalation_apply s)]
    refine upkeepLayers_keeps (fun l hl => h l hl _ ?_) _ (hpolicy _ s hs)
    split
    · exact .inr rfl
    · exact .inl rfl

end Stack

/-! ### Stacks of tables -/

/-- A request to the maps that a request to a stack of tables may come to. -/
def RecordRequest.Makes : RecordRequest → Request → Prop
  | .append id? fresh _, r => r.key? = some (id?.getD fresh)
  | .put record, r => r.key? = some record.id
  | .get id, r => r.key? = some id
  | .remove id, r => r.key? = some id
  | .keys, r => r = .keys none
  | .query _, r => r = .keys none ∨ ∃ id, r = .get id
  | .count _, r => r = .keys none ∨ ∃ id, r = .get id
  | .upkeep verb, r => r = .upkeep verb ∨ r = .upkeep .maintenance

/-- The layers of a stack of tables are its tables, one of which answers queries. -/
structure TableStack.Composed {σ : Type} (o : TableStack σ) : Prop where
  layers : o.stack.layers = o.tables.map Table.layer
  queryTable : o.queryTable ∈ o.tables

namespace TableStack

variable {σ : Type} [PolicyKeeper σ] {o : TableStack σ} {asked : Request → Prop}
  {holds : σ → Prop} {now : Int64}

/-- **What the maps of a stack of tables keep under the requests that an operation comes to,
the operation keeps.** -/
theorem perform_keeps (ho : o.Composed) {r : RecordRequest} (hasked : ∀ q, r.Makes q → asked q)
    (h : ∀ t ∈ o.tables, ∀ b ∈ t.maps, b.KeepsOn now asked holds)
    (hpolicy : ∀ p s, holds s → holds ((PolicyKeeper.policy o.stack.ticket).write p s)) :
    (o.perform now r).Keeps holds := by
  have hlayers : ∀ id, (∀ q : Request, q.key? = some id → asked q) →
      ∀ l ∈ o.stack.layers, l.KeepsOn now id holds := by
    intro id hid l hl
    rw [ho.layers] at hl
    obtain ⟨t, ht, rfl⟩ := List.mem_map.1 hl
    exact Table.layer_keepsOn (h t ht) hid
  have hquery := h o.queryTable ho.queryTable
  cases r with
  | append id? fresh fields =>
    have hid := hlayers _ hasked
    rw [← Record.id_ofFields (id?.getD fresh) fields] at hid
    unfold perform append
    cases id? with
    | none =>
      refine .bind (.ofExcept _) fun _ => ?_
      exact .bind (Stack.writeExpiring_keeps hid _ _) fun _ => .pure _
    | some id =>
      refine .bind (.ofExcept _) fun _ => .bind (.ofExcept _) fun _ => ?_
      exact .bind (Stack.update_keeps hid _) fun _ => .pure _
  | put record =>
    exact .bind (.ofExcept _) fun _ => Stack.writeExpiring_keeps (hlayers _ hasked) _ _
  | get id => exact Stack.read_keeps (hlayers id hasked)
  | remove id => exact Stack.remove_keeps (hlayers id hasked)
  | keys => exact Table.keys_keeps hquery (hasked _ rfl)
  | query q =>
    exact Table.query_keeps hquery (hasked _ (.inl rfl)) (fun id => hasked _ (.inr ⟨id, rfl⟩)) q
  | count q =>
    exact Table.count_keeps hquery (hasked _ (.inl rfl)) (fun id => hasked _ (.inr ⟨id, rfl⟩)) q
  | upkeep verb =>
    refine Stack.upkeep_keeps (fun l hl carried hcarried => ?_) hpolicy
    rw [ho.layers] at hl
    obtain ⟨t, ht, rfl⟩ := List.mem_map.1 hl
    exact Table.upkeep_keeps (h t ht) (hasked _ (hcarried.imp (congrArg _) (congrArg _)))

/-- The state after requests, each at a time. -/
def run (o : TableStack σ) (requests : List (Int64 × RecordRequest)) (s : σ) : σ :=
  requests.foldl (fun s x => (o.perform x.1 x.2 s).2) s

/-- What is kept by every request of a run, and by waiting, holds at its end. -/
theorem run_keeps {holds : Int64 → σ → Prop}
    (hlater : ∀ {now next s}, holds now s → now ≤ next → holds next s)
    {requests : List (Int64 × RecordRequest)}
    (h : ∀ x ∈ requests, (o.perform x.1 x.2).Keeps (holds x.1)) {finish : Int64}
    (clock : (now :: requests.map Prod.fst ++ [finish]).Pairwise (· ≤ ·)) {s : σ}
    (hs : holds now s) : holds finish (o.run requests s) := by
  induction requests generalizing now s with
  | nil =>
    have hle : now ≤ finish := by simpa using clock
    exact hlater hs hle
  | cons x rest ih =>
    have hle : now ≤ x.1 := (List.pairwise_cons.1 clock).1 x.1 (by simp)
    have hstep := h x List.mem_cons_self s (hlater hs hle)
    exact ih (fun y hy => h y (List.mem_cons_of_mem x hy)) (List.pairwise_cons.1 clock).2 hstep

end TableStack

end LayeredStore
