import LayeredStore.Proofs.Residents

/-! # Sessions

A session is a catalog with the storage below it and every handle that it has handed out;
handles stay usable after their table is dropped.  Each event of a session goes through one
resident, or is upkeep of the whole catalog (`CatalogEvent.through`).

What is done to the storage in an event is opening, upkeep and requests to handles.  So a
statement about the storage that these keep is kept by the event, and handles that are opened
well stay so, in the catalog and where they were handed out (`Session.step_stocked`).
`Catalog.Supports` says what is asked of opening and upkeep.
-/
namespace LayeredStore

/-! ### Sessions -/

/-- A catalog, the storage below, and the handles that have been handed out. -/
structure Session (σ : Type) where
  catalog : Catalog σ
  storage : σ
  handles : List (Handle σ)

/-- What can happen in a session. -/
inductive CatalogEvent
  | register (schema : Schema)
  | table (name : String)
  | dropTable (name : String)
  | map (name : String)
  /-- Upkeep of the whole catalog. -/
  | upkeep (verb : Upkeep)
  /-- A request through one of the handles. -/
  | ask (index : Nat) (r : HandleRequest)

section

variable {σ : Type}

/-- The resident that an event goes through; upkeep of the whole catalog goes through none. -/
def CatalogEvent.through (session : Session σ) : CatalogEvent → Option Resident
  | register schema => some (.table (Catalog.key schema.table))
  | table name | dropTable name => some (.table (Catalog.key name))
  | map name => some (.map (Catalog.key name))
  | upkeep _ => none
  | ask index _ => session.handles[index]?.map Handle.resident

variable [PolicyKeeper σ]

/-- What an event does to the catalog and the storage; the answer is the handles handed out. -/
def CatalogEvent.act (handles : List (Handle σ)) (now : Int64) :
    CatalogEvent → Catalog.Act σ (List (Handle σ))
  | register schema => do
    let o ← Catalog.register now schema
    pure [.table o]
  | table name => do
    let o? ← Catalog.table? name
    pure (o?.toList.map .table)
  | dropTable name => do
    let _ ← Catalog.dropTable now name
    pure []
  | map name => do
    let m ← Catalog.map now name
    pure [.map m]
  | upkeep verb => do
    Catalog.upkeep now verb
    pure []
  | ask index r => do
    Action.onSecond (Action.onMember handles index fun h => h.carryOut now r)
    pure []

namespace Session

/-- The session after an event; nothing is handed out by one that fails. -/
def step (session : Session σ) (now : Int64) (e : CatalogEvent) : Session σ :=
  match e.act session.handles now (session.catalog, session.storage) with
  | (.ok new, c, s) => ⟨c, s, session.handles ++ new⟩
  | (.error _, c, s) => ⟨c, s, session.handles⟩

/-- The session after events, each at a time. -/
def run (session : Session σ) (events : List (Int64 × CatalogEvent)) : Session σ :=
  events.foldl (fun session e => session.step e.1 e.2) session

end Session

end

/-! ### What an event keeps -/

namespace Dictionary

variable {κ α : Type} [Ord κ] [Std.LawfulEqOrd κ] {d : Dictionary κ α} {p : κ → α → Prop}
  (h : ∀ {k a}, d.get? k = some a → p k a)
include h

/-- What holds of all entries and of a new one holds after it is inserted. -/
theorem forall_insert [Std.TransOrd κ] {key : κ} {value : α} (hnew : p key value) {k : κ} {a : α}
    (hget : (d.insert key value).get? k = some a) : p k a := by
  rw [get?_insert] at hget
  split at hget
  · next heq =>
    obtain rfl := Option.some.inj hget
    rwa [← Std.LawfulEqCmp.eq_of_compare heq]
  · exact h hget

/-- What holds of all entries holds after one is erased. -/
theorem forall_erase (key : κ) {k : κ} {a : α} (hget : (d.erase key).get? k = some a) : p k a := by
  rw [get?_erase] at hget
  split at hget
  · cases hget
  · exact h hget

end Dictionary

section

variable {σ : Type} {factories : List (Factory σ)} {good : Handle σ → Prop} {holds : σ → Prop}

/-- A catalog on some stores, whose tables and maps are good and registered under their own
names. -/
structure Catalog.Stocked (c : Catalog σ) (factories : List (Factory σ)) (good : Handle σ → Prop) :
    Prop where
  factories : c.factories = factories
  tables : ∀ {key o}, c.tables.get? key = some o →
    key = Catalog.key o.schema.table ∧ good (.table o)
  maps : ∀ {key m}, c.maps.get? key = some m → key = Catalog.key m.name ∧ good (.map m)

namespace Catalog.Stocked

variable {c : Catalog σ}

theorem new {settings : Settings} (h : Catalog.new factories settings = .ok c) :
    c.Stocked factories good := by
  unfold Catalog.new at h
  split at h
  · cases h
  · split at h <;> cases h
    exact ⟨rfl, nofun, nofun⟩

variable (h : c.Stocked factories good)
include h

theorem insertTable {o : TableStack σ} (ho : good (.table o)) :
    { c with tables := c.tables.insert (Catalog.key o.schema.table) o }.Stocked factories good where
  factories := h.factories
  tables := Dictionary.forall_insert h.tables ⟨rfl, ho⟩
  maps := h.maps

theorem insertMap {m : MapStack σ} (hm : good (.map m)) :
    { c with maps := c.maps.insert (Catalog.key m.name) m }.Stocked factories good where
  factories := h.factories
  tables := h.tables
  maps := Dictionary.forall_insert h.maps ⟨rfl, hm⟩

theorem eraseTable (key : String) :
    { c with tables := c.tables.erase key }.Stocked factories good where
  factories := h.factories
  tables := Dictionary.forall_erase h.tables key
  maps := h.maps

/-- What is registered, in the order of the names, is good. -/
theorem values : (∀ o ∈ c.tables.values, good (.table o)) ∧ ∀ m ∈ c.maps.values, good (.map m) := by
  constructor
  · intro o ho
    obtain ⟨⟨key, _⟩, hmem, rfl⟩ := List.mem_map.1 ho
    exact (h.tables ((Dictionary.get?_eq_some_iff _ _ _).2 hmem)).2
  · intro m hm
    obtain ⟨⟨key, _⟩, hmem, rfl⟩ := List.mem_map.1 hm
    exact (h.maps ((Dictionary.get?_eq_some_iff _ _ _).2 hmem)).2

end Catalog.Stocked

variable [PolicyKeeper σ]

/-- Carry out upkeep of what is in a handle. -/
def Handle.upkeep (h : Handle σ) (now : Int64) (verb : Upkeep) : Action σ StoreError Unit :=
  match h with
  | table o => o.stack.upkeep now verb
  | map m => m.upkeep now verb

/-- **What the maps below keep under upkeep, a handle keeps under upkeep.** -/
theorem Handle.upkeep_keeps {h : Handle σ} {now : Int64}
    (hbuilt : h.BuiltOn fun b => ∀ verb, (b.perform (.upkeep verb) now).Keeps holds)
    (hpolicy : ∀ ticket p s, holds s → holds ((PolicyKeeper.policy ticket).write p s))
    (verb : Upkeep) : (h.upkeep now verb).Keeps holds := by
  cases h with
  | table o =>
    obtain ⟨ho, htables⟩ := hbuilt
    refine Stack.upkeep_keeps (fun l hl carried _ => ?_) (hpolicy _)
    rw [ho.layers] at hl
    obtain ⟨t, ht, rfl⟩ := List.mem_map.1 hl
    have hmaps : ∀ b ∈ t.maps, b.KeepsOn now (fun r => ∃ verb, r = .upkeep verb) holds := by
      rintro b hb _ ⟨verb, rfl⟩
      exact htables t ht b hb verb
    exact Table.upkeep_keeps hmaps ⟨carried, rfl⟩
  | map m =>
    refine Stack.upkeep_keeps (fun l hl carried _ => ?_) (hpolicy _)
    obtain ⟨b, rfl, hb⟩ := hbuilt l hl
    exact (hb carried).mapError _

/-- The storage supports events through a resident, or through all: what is opened is good,
and neither opening nor upkeep breaks what holds of the state. -/
structure Catalog.Supports (now : Int64) (factories : List (Factory σ)) (good : Handle σ → Prop)
    (holds : σ → Prop) (through? : Option Resident) : Prop where
  issue : ∀ s, holds s → holds (PolicyKeeper.issue s).2
  policies : ∀ ticket p s, holds s → holds ((PolicyKeeper.policy ticket).write p s)
  tables : ∀ (schema : Schema) (settings : Settings),
    (TableStack.openOn schema factories settings).Delivers holds
      fun o => o.schema = schema ∧ good (.table o)
  maps : ∀ {name : String}, checkName name = .ok () →
    (openLayers (Text.lower name) factories).Delivers holds
      fun layers => ∀ m : MapStack σ, m.name = name → m.layers = layers → good (.map m)
  upkeep : ∀ {h : Handle σ}, good h → (∀ A, through? = some A → h.resident = A) →
    ∀ verb, (h.upkeep now verb).Keeps holds

/-- The catalog is stocked, and the storage is as it should be. -/
def Catalog.Stands (factories : List (Factory σ)) (good : Handle σ → Prop) (holds : σ → Prop)
    (p : Catalog σ × σ) : Prop :=
  p.1.Stocked factories good ∧ holds p.2

namespace Catalog

section

variable {α : Type} {given : α → Prop}

omit [PolicyKeeper σ]

theorem inspect_delivers {f : Catalog σ → α} (h : ∀ c, c.Stocked factories good → given (f c)) :
    (inspect f : Act σ α).Delivers (Stands factories good holds) given where
  keeps _ hp := hp
  good hp hend := by
    cases hend
    exact h _ hp.1

theorem inspect_id_delivers :
    (inspect id : Act σ (Catalog σ)).Delivers (Stands factories good holds)
      (·.Stocked factories good) :=
  inspect_delivers fun _ hc => hc

theorem change_delivers {f : Catalog σ → Catalog σ}
    (h : ∀ c, c.Stocked factories good → (f c).Stocked factories good) :
    (change f : Act σ Unit).Delivers (Stands factories good holds) fun _ => True :=
  Action.Keeps.delivers fun p hp => ⟨h p.1 hp.1, hp.2⟩

/-- Work on the storage leaves the catalog. -/
theorem onStorage_delivers {x : Action σ StoreError α} (hx : x.Delivers holds given) :
    (x.onSecond : Act σ α).Delivers (Stands factories good holds) given where
  keeps p hp := ⟨hp.1, hx.keeps p.2 hp.2⟩
  good {p a q} hp hend := by
    have hvalue : (x p.2).1 = .ok a := congrArg Prod.fst hend
    exact hx.good hp.2 (Prod.ext hvalue rfl)

end

variable {now : Int64}

/-- A table that is registered, now or before, is good and is the one that was asked for. -/
theorem register_delivers {schema : Schema}
    (h : Supports now factories good holds (some (.table (key schema.table)))) :
    (register now schema).Delivers (Stands factories good holds)
      fun o => good (.table o) ∧ key o.schema.table = key schema.table ∧
        o.schema.fields = schema.fields := by
  refine .bind inspect_id_delivers fun c hc => ?_
  split
  · next existing hget =>
    obtain ⟨hkey, hgood⟩ := hc.tables hget
    split
    · next hfields => exact .pure ⟨hgood, hkey.symm, hfields⟩
    · exact .fail _
  · rw [show c.factories = factories from hc.factories]
    refine .bind (onStorage_delivers (h.tables schema c.settings)) ?_
    rintro o ⟨rfl, ho⟩
    have hsetup : (o.stack.upkeep now .setup).Keeps holds :=
      h.upkeep ho (fun A hA => Option.some.inj hA) .setup
    refine .bind (onStorage_delivers hsetup.delivers) fun _ _ => ?_
    exact .bind (change_delivers fun c hc => hc.insertTable ho) fun _ _ => .pure ⟨ho, rfl, rfl⟩

omit [PolicyKeeper σ] in
theorem table?_delivers (name : String) :
    (table? name : Act σ (Option (TableStack σ))).Delivers (Stands factories good holds)
      fun o? => ∀ o ∈ o?, key o.schema.table = key name ∧ good (.table o) := by
  refine .bind (.ofExcept _) fun _ _ => ?_
  refine inspect_delivers fun c hc o hget => ?_
  obtain ⟨hkey, hgood⟩ := hc.tables hget
  exact ⟨hkey.symm, hgood⟩

theorem dropTable_delivers {name : String}
    (h : Supports now factories good holds (some (.table (key name)))) :
    (dropTable now name).Delivers (Stands factories good holds) fun _ => True := by
  have hlook : (inspect fun c => c.tables.get? (key name) : Act σ (Option (TableStack σ))).Delivers
      (Stands factories good holds)
      fun o? => ∀ o ∈ o?, key name = key o.schema.table ∧ good (.table o) :=
    inspect_delivers fun c hc o hget => hc.tables hget
  refine .bind (.ofExcept _) fun _ _ => .bind hlook fun o? ho => ?_
  cases o? with
  | none => exact .pure trivial
  | some o =>
    obtain ⟨hkey, hgood⟩ := ho o rfl
    have hteardown : (o.stack.upkeep now .teardown).Keeps holds :=
      h.upkeep hgood (fun A hA => (congrArg Resident.table hkey.symm).trans (Option.some.inj hA))
        .teardown
    refine .bind (change_delivers fun c hc => hc.eraseTable (key name)) fun _ _ => ?_
    exact .bind (onStorage_delivers hteardown.delivers) fun _ _ => .pure trivial

theorem map_delivers {name : String}
    (h : Supports now factories good holds (some (.map (key name)))) :
    (map now name).Delivers (Stands factories good holds) fun m => good (.map m) := by
  refine .bind (.ofExcept _) fun _ hname => ?_
  refine .bind inspect_id_delivers fun c hc => ?_
  split
  · next existing hget => exact .pure (hc.maps hget).2
  · rw [show c.factories = factories from hc.factories]
    refine .bind (onStorage_delivers (h.maps hname)) fun layers hlayers => ?_
    refine .bind (onStorage_delivers (Stack.compose_delivers h.issue h.policies name layers _)) ?_
    rintro m ⟨rfl, rfl⟩
    have hm : good (.map m) := hlayers m rfl rfl
    have hsetup : (m.upkeep now .setup).Keeps holds :=
      h.upkeep hm (fun A hA => Option.some.inj hA) .setup
    refine .bind (onStorage_delivers hsetup.delivers) fun _ _ => ?_
    exact .bind (change_delivers fun c hc => hc.insertMap hm) fun _ _ => .pure hm

theorem upkeep_keeps (verb : Upkeep) (h : Supports now factories good holds none) :
    (upkeep now verb).Keeps (Stands factories good holds) := by
  rintro ⟨c, s⟩ ⟨hc, hs⟩
  have hmembers : ∀ member ∈ c.members, (member.upkeep verb now).Keeps holds := by
    intro member hmember
    rcases List.mem_append.1 hmember with htable | hmap
    · obtain ⟨o, ho, rfl⟩ := List.mem_map.1 htable
      exact h.upkeep (hc.values.1 o ho) nofun verb
    · obtain ⟨m, hm, rfl⟩ := List.mem_map.1 hmap
      exact h.upkeep (hc.values.2 m hm) nofun verb
  refine ⟨?_, Member.upkeepAll_keeps hmembers s hs⟩
  show Stocked (if verb = .teardown then { c with tables := .empty, maps := .empty } else c)
    factories good
  split
  · exact ⟨hc.factories, nofun, nofun⟩
  · exact hc

end Catalog

variable {session : Session σ} {now : Int64}

/-- **An event** keeps the catalog stocked and what holds of the storage, and what it hands
out is good, whatever fails. -/
theorem CatalogEvent.act_delivers {e : CatalogEvent}
    (h : Catalog.Supports now factories good holds (e.through session))
    (hask : ∀ index r h, e = .ask index r → session.handles[index]? = some h →
      (h.carryOut now r).Keeps holds) :
    (e.act session.handles now).Delivers (Catalog.Stands factories good holds)
      fun new => ∀ h ∈ new, good h := by
  cases e with
  | register schema =>
    refine .bind (Catalog.register_delivers h) fun o ho => ?_
    exact .pure (List.forall_mem_singleton.2 ho.1)
  | table name =>
    refine .bind (Catalog.table?_delivers name) fun o? ho => .pure fun h hh => ?_
    obtain ⟨o, hmem, rfl⟩ := List.mem_map.1 hh
    exact (ho o (Option.mem_toList.1 hmem)).2
  | dropTable name =>
    exact .bind (Catalog.dropTable_delivers h) fun _ _ => .pure (List.forall_mem_nil _)
  | map name =>
    exact .bind (Catalog.map_delivers h) fun m hm => .pure (List.forall_mem_singleton.2 hm)
  | upkeep verb =>
    exact .bind (Catalog.upkeep_keeps verb h).delivers fun _ _ => .pure (List.forall_mem_nil _)
  | ask index r =>
    have hcarry : (Action.onMember session.handles index fun h => h.carryOut now r).Keeps holds :=
      Action.onMember_keeps fun h hget => hask index r h rfl hget
    exact .bind (Catalog.onStorage_delivers hcarry.delivers) fun _ _ =>
      .pure (List.forall_mem_nil _)

namespace Session

omit [PolicyKeeper σ] in
/-- Everything in a session is good. -/
structure Stocked (session : Session σ) (factories : List (Factory σ)) (good : Handle σ → Prop) :
    Prop where
  catalog : session.catalog.Stocked factories good
  handles : ∀ h ∈ session.handles, good h

omit [PolicyKeeper σ] in
/-- A new catalog with nothing handed out. -/
def start (c : Catalog σ) (s : σ) : Session σ := ⟨c, s, []⟩

omit [PolicyKeeper σ] in
theorem start_stocked {settings : Settings} {c : Catalog σ}
    (hnew : Catalog.new factories settings = .ok c) (s : σ) :
    (start c s).Stocked factories good :=
  ⟨.new hnew, List.forall_mem_nil _⟩

/-- **After an event** everything is good, and what holds of the storage still holds. -/
theorem step_stocked (hsession : session.Stocked factories good) (hs : holds session.storage)
    {e : CatalogEvent} (h : Catalog.Supports now factories good holds (e.through session))
    (hask : ∀ index r h, e = .ask index r → session.handles[index]? = some h →
      (h.carryOut now r).Keeps holds) :
    (session.step now e).Stocked factories good ∧ holds (session.step now e).storage := by
  have hact : (e.act session.handles now).Delivers (Catalog.Stands factories good holds)
      fun new => ∀ h ∈ new, good h := CatalogEvent.act_delivers h hask
  have hstart : Catalog.Stands factories good holds (session.catalog, session.storage) :=
    ⟨hsession.catalog, hs⟩
  have hkept := hact.keeps _ hstart
  unfold step
  rcases hend : e.act session.handles now (session.catalog, session.storage) with
    ⟨failure | new, c, s⟩
  · rw [hend] at hkept
    exact ⟨⟨hkept.1, hsession.handles⟩, hkept.2⟩
  · rw [hend] at hkept
    exact ⟨⟨hkept.1, List.forall_mem_append.2 ⟨hsession.handles, hact.good hstart hend⟩⟩, hkept.2⟩

end Session

end

end LayeredStore
