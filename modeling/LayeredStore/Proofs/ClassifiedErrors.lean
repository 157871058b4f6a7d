import LayeredStore.Proofs.ErrorTrees
import LayeredStore.Proofs.Isolation

/-! # Errors are classified

Every error that a table, a stack or a catalog surfaces is well formed, so it may be retried
just when all its leaves are outages (`StoreCall.classified`).  Nothing is assumed of the
backends and factories.

A catalog passes on errors of what is registered in it, so the run lemma is about that: in
every session that can be reached (`Session.Reached`), whatever becomes of the storage between
two events, everything registered and everything handed out is built on backends
(`Session.Reached.built`).
-/
namespace LayeredStore

variable {σ : Type}

/-! ### Actions of a catalog -/

/-- From states where `holds` is true an action ends in such a state, with a good value or a
well-formed error. -/
structure Action.Classifies {α : Type} (x : Action σ StoreError α) (holds : σ → Prop)
    (good : α → Prop) : Prop extends x.Delivers holds good where
  surfaces : ∀ {s e t}, holds s → x s = (.error e, t) → e.WellFormed

namespace Action

variable {α β : Type} {holds : σ → Prop} {good : α → Prop}

theorem Surfaces.classifies {x : Action σ StoreError α} (hx : x.Surfaces)
    (h : x.Delivers holds good) : x.Classifies holds good :=
  ⟨h, fun _ hend => hx hend⟩

namespace Classifies

theorem pure {a : α} (h : good a) : (Pure.pure a : Action σ StoreError α).Classifies holds good :=
  (Surfaces.pure a).classifies (.pure h)

theorem fail {e : StoreError} (h : e.IsLeaf) :
    (Action.fail e : Action σ StoreError α).Classifies holds good :=
  (Surfaces.fail h).classifies (.fail e)

theorem ofExcept {x : Except StoreError α} (h : ∀ e, x = .error e → e.IsLeaf) :
    (Action.ofExcept x : Action σ StoreError α).Classifies holds fun _ => True :=
  (Surfaces.ofExcept h).classifies ((Delivers.ofExcept x).mono fun _ _ => trivial)

theorem bind {x : Action σ StoreError α} {f : α → Action σ StoreError β} {good' : β → Prop}
    (hx : x.Classifies holds good) (hf : ∀ a, good a → (f a).Classifies holds good') :
    (x >>= f).Classifies holds good' where
  toDelivers := hx.toDelivers.bind fun a ha => (hf a ha).toDelivers
  surfaces {s e t} hs hend := by
    have hkept := hx.keeps s hs
    rcases hfirst : x s with ⟨e' | a, u⟩
    · rw [Action.bind_error hfirst] at hend
      cases hend
      exact hx.surfaces hs hfirst
    · rw [Action.bind_ok hfirst] at hend
      rw [hfirst] at hkept
      exact (hf a (hx.good hs hfirst)).surfaces hkept hend

end Classifies

end Action

/-- Everything registered is built on backends. -/
structure Catalog.Built (c : Catalog σ) : Prop where
  tables : ∀ {key o}, c.tables.get? key = some o → (Handle.table o).BuiltOn fun _ => True
  maps : ∀ {key m}, c.maps.get? key = some m → (Handle.map m).BuiltOn fun _ => True

namespace Catalog

variable [PolicyKeeper σ] (now : Int64)

section

omit [PolicyKeeper σ]

variable {c : Catalog σ}

theorem built_of_new {factories : List (Factory σ)} {settings : Settings}
    (h : new factories settings = .ok c) : c.Built := by
  unfold new at h
  split at h
  · cases h
  · split at h <;> cases h
    exact ⟨nofun, nofun⟩

theorem new_isLeaf {factories : List (Factory σ)} {settings : Settings} {e : StoreError}
    (h : new factories settings = .error e) : e.IsLeaf := by
  unfold new at h
  split at h
  · cases h
    trivial
  · split at h <;> cases h
    trivial

theorem Built.insertTable (h : c.Built) (key : String) {o : TableStack σ}
    (ho : (Handle.table o).BuiltOn fun _ => True) :
    { c with tables := c.tables.insert key o }.Built where
  tables := Dictionary.forall_insert (p := fun _ o => (Handle.table o).BuiltOn _) h.tables ho
  maps := h.maps

theorem Built.insertMap (h : c.Built) (key : String) {m : MapStack σ}
    (hm : (Handle.map m).BuiltOn fun _ => True) :
    { c with maps := c.maps.insert key m }.Built where
  tables := h.tables
  maps := Dictionary.forall_insert (p := fun _ m => (Handle.map m).BuiltOn _) h.maps hm

theorem Built.eraseTable (h : c.Built) (key : String) :
    { c with tables := c.tables.erase key }.Built where
  tables := Dictionary.forall_erase (p := fun _ o => (Handle.table o).BuiltOn _) h.tables key
  maps := h.maps

end

/-! ### Parts of events -/

section

variable {α : Type} {good : α → Prop}

omit [PolicyKeeper σ]

theorem inspect_classifies {f : Catalog σ → α} (h : ∀ c : Catalog σ, c.Built → good (f c)) :
    (inspect f : Act σ α).Classifies (fun p => p.1.Built) good where
  keeps _ hp := hp
  good hp hend := by
    cases hend
    exact h _ hp
  surfaces _ hend := by cases hend

theorem change_classifies {f : Catalog σ → Catalog σ} (h : ∀ c : Catalog σ, c.Built → (f c).Built) :
    (change f : Act σ Unit).Classifies (fun p => p.1.Built) fun _ => True where
  keeps p hp := h p.1 hp
  good _ _ := trivial
  surfaces _ hend := by cases hend

/-- Work on the storage leaves the catalog. -/
theorem onStorage_classifies {x : Action σ StoreError α} (hx : x.Surfaces)
    (h : x.Delivers (fun _ => True) good) :
    (x.onSecond : Act σ α).Classifies (fun p => p.1.Built) good where
  keeps p hp := hp
  good {p a q} _ hend := by
    have hvalue : (x p.2).1 = .ok a := congrArg Prod.fst hend
    exact h.good trivial (Prod.ext hvalue rfl)
  surfaces {p e q} _ hend := by
    have herror : (x p.2).1 = .error e := congrArg Prod.fst hend
    exact hx (Prod.ext herror rfl)

/-- A request to what is built on backends, made on the storage. -/
theorem request_classifies [PolicyKeeper σ] {h : Handle σ} (hbuilt : h.BuiltOn fun _ => True) (r : HandleRequest) :
    ((h.carryOut now r).onSecond : Act σ Unit).Classifies (fun p => p.1.Built) fun _ => True :=
  onStorage_classifies (Handle.carryOut_surfaces hbuilt now r)
    (Action.Keeps.delivers fun _ _ => trivial)

end

/-! ### Operations -/

theorem openStack_classifies (schema : Schema) (factories : List (Factory σ)) (settings : Settings) :
    ((TableStack.openOn schema factories settings).onSecond : Act σ (TableStack σ)).Classifies
      (fun p => p.1.Built) fun o => (Handle.table o).BuiltOn fun _ => True := by
  have hopen : (TableStack.openTables schema settings factories).Delivers (fun _ => True)
      fun _ => True := Action.Keeps.delivers fun _ _ => trivial
  have hjoin : ∀ tables, (TableStack.ofTables tables settings).Delivers (fun _ : σ => True)
      fun o => (Handle.table o).BuiltOn fun _ => True := fun tables =>
    (TableStack.ofTables_delivers (fun _ _ => trivial) (fun _ _ _ _ => trivial) tables settings).mono
      fun o ho => ⟨ho.1, fun _ _ _ _ => trivial⟩
  exact onStorage_classifies (TableStack.openOn_surfaces schema factories settings)
    (hopen.bind fun tables _ => hjoin tables)

omit [PolicyKeeper σ] in
theorem openLayers_classifies (name : String) (factories : List (Factory σ)) :
    ((openLayers name factories).onSecond : Act σ (List (Layer σ Bytes))).Classifies
      (fun p => p.1.Built) fun layers => ∀ l ∈ layers, ∃ b, l = Layer.ofBackend b ∧ True := by
  have hopen : (openLayers name factories).Surfaces := by
    induction factories with
    | nil => exact .pure []
    | cons factory rest ih => exact .bind (.storage _) fun _ => .bind ih fun _ => .pure _
  exact onStorage_classifies hopen (openLayers_delivers fun _ _ => Action.Keeps.delivers fun _ _ => trivial)

theorem register_classifies (schema : Schema) :
    (register now schema : Act σ (TableStack σ)).Classifies (fun p => p.1.Built)
      fun o => (Handle.table o).BuiltOn fun _ => True := by
  refine .bind (inspect_classifies fun _ hc => hc) fun c hc => ?_
  split
  · next existing hget =>
    split
    · exact .pure (hc.tables hget)
    · exact .fail trivial
  · refine .bind (openStack_classifies schema c.factories c.settings) fun o ho => ?_
    refine .bind (request_classifies now ho (.records (.upkeep .setup))) fun _ _ => ?_
    refine .bind (change_classifies fun c hc => hc.insertTable (key schema.table) ho) fun _ _ => ?_
    exact .pure ho

omit [PolicyKeeper σ] in
theorem table?_classifies (name : String) :
    (table? name : Act σ (Option (TableStack σ))).Classifies (fun p => p.1.Built)
      fun o? => ∀ o ∈ o?, (Handle.table o).BuiltOn fun _ => True :=
  .bind (.ofExcept fun _ h => checkName_isLeaf h) fun _ _ =>
    inspect_classifies fun _ hc _ hget => hc.tables hget

theorem dropTable_classifies (name : String) :
    (dropTable now name : Act σ Bool).Classifies (fun p => p.1.Built) fun _ => True := by
  have hlook : (inspect fun c => c.tables.get? (key name) : Act σ (Option (TableStack σ))).Classifies
      (fun p => p.1.Built) fun o? => ∀ o ∈ o?, (Handle.table o).BuiltOn fun _ => True :=
    inspect_classifies fun _ hc _ hget => hc.tables hget
  refine .bind (.ofExcept fun _ h => checkName_isLeaf h) fun _ _ => .bind hlook fun o? ho => ?_
  cases o? with
  | none => exact .pure trivial
  | some o =>
    refine .bind (change_classifies fun c hc => hc.eraseTable (key name)) fun _ _ => ?_
    refine .bind (request_classifies now (ho o rfl) (.records (.upkeep .teardown))) fun _ _ => ?_
    exact .pure trivial

theorem map_classifies (name : String) :
    (map now name : Act σ (MapStack σ)).Classifies (fun p => p.1.Built)
      fun m => (Handle.map m).BuiltOn fun _ => True := by
  refine .bind (.ofExcept fun _ h => checkName_isLeaf h) fun _ _ => ?_
  refine .bind (inspect_classifies fun _ hc => hc) fun c hc => ?_
  split
  · next existing hget => exact .pure (hc.maps hget)
  · refine .bind (openLayers_classifies _ c.factories) fun layers hlayers => ?_
    refine .bind (onStorage_classifies (Stack.compose_surfaces name layers c.settings)
      (Stack.compose_delivers (fun _ _ => trivial) (fun _ _ _ _ => trivial) _ _ _)) ?_
    rintro m ⟨-, rfl⟩
    have hm : (Handle.map m).BuiltOn fun _ => True := hlayers
    refine .bind (request_classifies now hm (.values (.upkeep .setup))) fun _ _ => ?_
    refine .bind (change_classifies fun c hc => hc.insertMap (key name) hm) fun _ _ => ?_
    exact .pure hm

/-- Upkeep of the whole catalog attempts tables and maps that are built on backends. -/
theorem upkeep_classifies (verb : Upkeep) :
    (upkeep now verb : Act σ Unit).Classifies (fun p => p.1.Built) fun _ => True := by
  have hkeeps : (upkeep now verb : Act σ Unit).Keeps fun p => p.1.Built := by
    intro p hp
    show Built (if verb = .teardown then { p.1 with tables := .empty, maps := .empty } else p.1)
    split
    · exact ⟨nofun, nofun⟩
    · exact hp
  refine ⟨hkeeps.delivers, fun {p e q} hp hend => ?_⟩
  have hmembers : ∀ member ∈ p.1.members, (member.upkeep verb now).Surfaces := by
    intro member hmember
    rcases List.mem_append.1 hmember with htable | hmap
    · obtain ⟨o, ho, rfl⟩ := List.mem_map.1 htable
      obtain ⟨⟨key, _⟩, hmem, rfl⟩ := List.mem_map.1 ho
      exact Handle.carryOut_surfaces (hp.tables ((Dictionary.get?_eq_some_iff _ _ _).2 hmem)) now
        (.records (.upkeep verb))
    · obtain ⟨m, hm, rfl⟩ := List.mem_map.1 hmap
      obtain ⟨⟨key, _⟩, hmem, rfl⟩ := List.mem_map.1 hm
      exact Handle.carryOut_surfaces (hp.maps ((Dictionary.get?_eq_some_iff _ _ _).2 hmem)) now
        (.values (.upkeep verb))
  have herror : (Member.upkeepAll p.1.members verb now p.2).1 = .error e := congrArg Prod.fst hend
  exact Member.upkeepAll_surfaces hmembers (Prod.ext herror rfl)

end Catalog

/-! ### Sessions -/

section

variable [PolicyKeeper σ]

/-- **An event** of a session in which everything is built on backends hands out such things,
or ends in a well-formed error. -/
theorem CatalogEvent.act_classifies {handles : List (Handle σ)}
    (h : ∀ h ∈ handles, h.BuiltOn fun _ => True) (now : Int64) (e : CatalogEvent) :
    (e.act handles now).Classifies (fun p => p.1.Built)
      fun new => ∀ h ∈ new, h.BuiltOn fun _ => True := by
  cases e with
  | register schema =>
    exact .bind (Catalog.register_classifies now schema) fun o ho =>
      .pure (List.forall_mem_singleton.2 ho)
  | table name =>
    refine .bind (Catalog.table?_classifies name) fun o? ho => .pure fun h hh => ?_
    obtain ⟨o, hmem, rfl⟩ := List.mem_map.1 hh
    exact ho o (Option.mem_toList.1 hmem)
  | dropTable name => exact .bind (Catalog.dropTable_classifies now name) fun _ _ => .pure nofun
  | map name =>
    exact .bind (Catalog.map_classifies now name) fun m hm => .pure (List.forall_mem_singleton.2 hm)
  | upkeep verb => exact .bind (Catalog.upkeep_classifies now verb) fun _ _ => .pure nofun
  | ask index r =>
    have hask : (Action.onMember handles index fun h => h.carryOut now r).Surfaces :=
      .onMember fun h' hget => Handle.carryOut_surfaces (h h' (List.mem_of_getElem? hget)) now r
    have hstorage : (Action.onMember handles index fun h => h.carryOut now r).Delivers
        (fun _ => True) fun _ => True := Action.Keeps.delivers fun _ _ => trivial
    exact .bind (Catalog.onStorage_classifies hask hstorage) fun _ _ => .pure nofun

/-- The sessions that can be reached.  Between two events anything may become of the storage,
and stacks may be put together without the catalog. -/
inductive Session.Reached : Session σ → Prop
  | start {factories : List (Factory σ)} {settings : Settings} {c : Catalog σ}
      (hnew : Catalog.new factories settings = .ok c) (s : σ) : Reached (Session.start c s)
  | event {session : Session σ} (before : Reached session) (now : Int64) (e : CatalogEvent) :
      Reached (session.step now e)
  | storage {session : Session σ} (before : Reached session) (s : σ) :
      Reached { session with storage := s }
  | handle {session : Session σ} (before : Reached session) {h : Handle σ}
      (hbuilt : h.BuiltOn fun _ => True) : Reached { session with handles := h :: session.handles }

theorem Session.Reached.run {session : Session σ} (h : session.Reached)
    (events : List (Int64 × CatalogEvent)) : (session.run events).Reached := by
  induction events generalizing session with
  | nil => exact h
  | cons e rest ih => exact ih (.event h e.1 e.2)

/-- **In every session that can be reached** everything is built on backends. -/
theorem Session.Reached.built {session : Session σ} (h : session.Reached) :
    session.catalog.Built ∧ ∀ h ∈ session.handles, h.BuiltOn fun _ => True := by
  induction h with
  | start hnew s => exact ⟨Catalog.built_of_new hnew, nofun⟩
  | @event session before now e ih =>
    have hact := CatalogEvent.act_classifies ih.2 now e
    have hkept := hact.keeps (session.catalog, session.storage) ih.1
    unfold Session.step
    rcases hend : e.act session.handles now (session.catalog, session.storage) with
      ⟨failure | new, c, s⟩
    · rw [hend] at hkept
      exact ⟨hkept, ih.2⟩
    · rw [hend] at hkept
      exact ⟨hkept, List.forall_mem_append.2 ⟨ih.2, hact.good ih.1 hend⟩⟩
  | storage before s ih => exact ih
  | handle before hbuilt ih => exact ⟨ih.1, List.forall_mem_cons.2 ⟨hbuilt, ih.2⟩⟩

/-! ### Calls -/

/-- What a coordinator can be given as a member. -/
inductive Member.Made : Member σ → Prop
  | map (b : Backend σ) : Made (.ofBackend b)
  | table (t : Table σ) : Made t.layer.member
  | records {stack : Stack σ Record} (h : ∀ l ∈ stack.layers, ∃ t, l = Table.layer t) :
      Made stack.member
  | values {stack : MapStack σ} (h : ∀ l ∈ stack.layers, ∃ b, l = Layer.ofBackend b) :
      Made stack.member

/-- A call of a table, a stack, a coordinator or a catalog. -/
inductive StoreCall (σ : Type) [PolicyKeeper σ]
  /-- Make a catalog. -/
  | newCatalog (factories : List (Factory σ)) (settings : Settings)
  /-- Open a table on a factory. -/
  | openTable (factory : Factory σ) (schema : Schema) (lifespan : UInt64)
  /-- Open a table on each factory and put the tables together. -/
  | openStack (schema : Schema) (factories : List (Factory σ)) (settings : Settings)
  /-- Put tables together. -/
  | joinTables (tables : List (Table σ)) (settings : Settings)
  /-- Put maps together. -/
  | joinMaps (name : String) (maps : List (Backend σ)) (settings : Settings)
  /-- A request to a table. -/
  | table (t : Table σ) (r : TableRequest)
  /-- A request to layered tables, which need not have one schema. -/
  | records (stack : Stack σ Record) (h : ∀ l ∈ stack.layers, ∃ t, l = Table.layer t)
    (r : StackRequest Record)
  /-- Upkeep of members that a coordinator has. -/
  | upkeep (members : List (Member σ)) (h : ∀ m ∈ members, m.Made) (verb : Upkeep)
  /-- An event of a session, such as a request to one of its handles. -/
  | event (e : CatalogEvent)

/-- Carry out a call, whatever the answer. -/
def StoreCall.carryOut (handles : List (Handle σ)) (now : Int64) :
    StoreCall σ → Catalog.Act σ Unit
  | newCatalog factories settings => do
    let _ ← Action.ofExcept (Catalog.new factories settings)
  | openTable factory schema lifespan => do
    let _ ← Action.onSecond (Table.openOn factory schema lifespan)
  | openStack schema factories settings => do
    let _ ← Action.onSecond (TableStack.openOn schema factories settings)
  | joinTables tables settings => do
    let _ ← Action.onSecond (TableStack.ofTables tables settings)
  | joinMaps name maps settings => do
    let _ ← Action.onSecond (Stack.compose name (maps.map Layer.ofBackend) settings)
  | table t r => Action.onSecond (t.carryOut now r)
  | records stack _ r => Action.onSecond (stack.carryOut now r)
  | upkeep members _ verb => Action.onSecond (Member.upkeepAll members verb now)
  | event e => do let _ ← e.act handles now

theorem Member.Made.surfaces {m : Member σ} (h : m.Made) (verb : Upkeep) (now : Int64) :
    (m.upkeep verb now).Surfaces := by
  cases h with
  | map b => exact .storage _
  | table t => exact t.upkeep_surfaces now verb
  | records h =>
    refine Stack.upkeep_surfaces (fun l hl => ?_) now verb
    obtain ⟨t, rfl⟩ := h l hl
    exact t.layer_surfaces
  | values h =>
    refine Stack.upkeep_surfaces (fun l hl => ?_) now verb
    obtain ⟨b, rfl⟩ := h l hl
    exact Layer.ofBackend_surfaces b

theorem StoreCall.carryOut_classifies {handles : List (Handle σ)}
    (h : ∀ h ∈ handles, h.BuiltOn fun _ => True) (now : Int64) (call : StoreCall σ) :
    (call.carryOut handles now).Classifies (fun p => p.1.Built) fun _ => True := by
  have hstorage : ∀ {α : Type} {x : Action σ StoreError α}, x.Surfaces →
      (x.onSecond : Catalog.Act σ α).Classifies (fun p => p.1.Built) fun _ => True :=
    fun hx => Catalog.onStorage_classifies hx (Action.Keeps.delivers fun _ _ => trivial)
  cases call with
  | newCatalog factories settings =>
    exact .bind (.ofExcept fun _ h => Catalog.new_isLeaf h) fun _ _ => .pure trivial
  | openTable factory schema lifespan =>
    exact .bind (hstorage (Table.openOn_surfaces _ _ _)) fun _ _ => .pure trivial
  | openStack schema factories settings =>
    exact .bind (hstorage (TableStack.openOn_surfaces _ _ _)) fun _ _ => .pure trivial
  | joinTables tables settings =>
    exact .bind (hstorage (TableStack.ofTables_surfaces _ _)) fun _ _ => .pure trivial
  | joinMaps name maps settings =>
    exact .bind (hstorage (Stack.compose_surfaces _ _ _)) fun _ _ => .pure trivial
  | table t r => exact hstorage (t.carryOut_surfaces now r)
  | records stack hlayers r =>
    refine hstorage (Stack.carryOut_surfaces (fun l hl => ?_) now r)
    obtain ⟨t, rfl⟩ := hlayers l hl
    exact t.layer_surfaces
  | upkeep members hmade verb =>
    exact hstorage (Member.upkeepAll_surfaces fun m hm => (hmade m hm).surfaces verb now)
  | event e => exact .bind (CatalogEvent.act_classifies h now e) fun _ _ => .pure trivial

/-- **Every error is well formed and classified by its leaves.**  Whatever a call ends in, in
any session that can be reached and whatever the backends do, each partial failure in the
error names some member, its members in ascending places below the number attempted; and the
error may be retried just when every leaf is an outage. -/
theorem StoreCall.classified {session : Session σ} (h : session.Reached) (now : Int64)
    (call : StoreCall σ) {e : StoreError} {after : Catalog σ × σ}
    (hend : call.carryOut session.handles now (session.catalog, session.storage) =
      (.error e, after)) :
    e.WellFormed ∧ (e.isRetryable = true ↔ ∀ leaf ∈ e.leaves, leaf.IsOutage) := by
  have hformed := (carryOut_classifies h.built.2 now call).surfaces h.built.1 hend
  exact ⟨hformed, hformed.isRetryable_iff⟩

end

/-! ### A disk that is down -/

/-- The session with a table and a map of one name, when the disk refuses full upkeep. -/
def namesakesDown : Session Site :=
  { namesakes with
    storage := Site.setFault 1 ⟨[.upkeep .maintenance], .unavailable, none⟩ namesakes.storage }

theorem namesakesDown_reached : namesakesDown.Reached :=
  .storage ((Session.Reached.start cachedCatalog_new cachedSite).run _) _

/-- Upkeep of the whole catalog fails on the table, on its second layer, on both maps there,
and on the map; it may be tried again. -/
theorem StoreCall.classified_down :
    ∃ e after, (StoreCall.event (.upkeep .maintenance)).carryOut namesakesDown.handles 0
        (namesakesDown.catalog, namesakesDown.storage) = (.error e, after) ∧
      e.failedMembers = [0, 1] ∧ e.isRetryable = true ∧ e.WellFormed ∧
        (e.isRetryable = true ↔ ∀ leaf ∈ e.leaves, leaf.IsOutage) := by
  have hfails : (match ((StoreCall.event (.upkeep .maintenance)).carryOut namesakesDown.handles 0
      (namesakesDown.catalog, namesakesDown.storage)).1 with
    | .error e => decide (e.failedMembers = [0, 1]) && e.isRetryable
    | .ok _ => false) = true := by decide +kernel
  rcases hend : (StoreCall.event (.upkeep .maintenance)).carryOut namesakesDown.handles 0
    (namesakesDown.catalog, namesakesDown.storage) with ⟨e | _, after⟩
  · rw [hend] at hfails
    obtain ⟨hmembers, hretry⟩ := Bool.and_eq_true_iff.1 hfails
    exact ⟨e, after, rfl, of_decide_eq_true hmembers, hretry,
      StoreCall.classified namesakesDown_reached 0 _ hend⟩
  · rw [hend] at hfails
    cases hfails

end LayeredStore
