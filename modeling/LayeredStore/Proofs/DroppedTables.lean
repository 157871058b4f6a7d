import LayeredStore.Proofs.EmptyMaps
import LayeredStore.Proofs.Forgetting
import LayeredStore.Proofs.Population
import LayeredStore.Proofs.VacantTables

/-! # What is left of dropped tables

A table that is dropped is torn down in the maps of the fields that it was registered with.
A catalog that is opened again knows no registrations, so the next one may have fewer fields;
the columns of the others are then not its to tear down, and a later registration that
declares them again finds what they hold.

So a table that is registered under the name of a dropped one is vacant just when none of its
columns that the dropped one lacked holds a live entry, and it is vacant if each of them is new
to the name (`Redeclaration.vacant`), whatever fails before, whatever restarts, and as long as
nothing is asked of a table of the name in between.  Where a column comes back that was
declared before the dropped registration, its entries are back (`Redeclaration.leftover`).
-/
namespace LayeredStore

open ExpiringMap

/-! ### Sessions that go on -/

/-- The resident that a request in an event is made to. -/
def CatalogEvent.asks {σ : Type} (session : Session σ) : CatalogEvent → Option Resident
  | ask index _ => session.handles[index]?.map Handle.resident
  | _ => none

namespace Session

/-- A session comes to another by events that are allowed, by volumes getting other faults, by
restarts, which lose what is in memory, and by opening another catalog on the same stores.
Handles are never taken back, so what they list is all that was ever handed out. -/
inductive ComesTo (allowed : Session Site → CatalogEvent → Prop) (first : Session Site) :
    Session Site → Prop
  | refl : ComesTo allowed first first
  | event {session : Session Site} (h : ComesTo allowed first session) (now : Int64)
      {e : CatalogEvent} (he : allowed session e) : ComesTo allowed first (session.step now e)
  | fault {session : Session Site} (h : ComesTo allowed first session) (number : Nat)
      (fault : Fault) :
      ComesTo allowed first { session with storage := session.storage.setFault number fault }
  | restart {session : Session Site} (h : ComesTo allowed first session) :
      ComesTo allowed first { session with storage := session.storage.restart [] }
  | reopen {session : Session Site} (h : ComesTo allowed first session) {settings : Settings}
      {c : Catalog Site} (hnew : Catalog.new session.catalog.factories settings = .ok c) :
      ComesTo allowed first { session with catalog := c }

/-- A catalog may be opened again after a restart. -/
theorem ComesTo.reopened {allowed : Session Site → CatalogEvent → Prop}
    {first session : Session Site} (h : first.ComesTo allowed session) {settings : Settings}
    {c : Catalog Site} (hnew : Catalog.new session.catalog.factories settings = .ok c) :
    first.ComesTo allowed ⟨c, session.storage.restart [], session.handles⟩ :=
  .reopen (.restart h) hnew

/-- Everything in a session is on its volumes, whose maps on disk can be read, and only the
free maps hold entries. -/
structure Orderly (session : Session Site) (medium : Nat → Medium) (wrapped : Nat → Bool)
    (site : Site) (volumes : List Nat) (free : Site.MapId → Prop) : Prop where
  stocked : session.Stocked (volumes.map site.factory)
    ((Site.vault medium wrapped).Lodges Prod.mk volumes)
  storage : (Site.vault medium wrapped).EmptyOutside (Site.Readable medium wrapped) free
    session.storage

namespace Orderly

variable {session : Session Site} {medium : Nat → Medium} {wrapped : Nat → Bool} {site : Site}
  {volumes : List Nat} {free : Site.MapId → Prop}

theorem mono (h : session.Orderly medium wrapped site volumes free) {free' : Site.MapId → Prop}
    (hfree : ∀ i, free i → free' i) : session.Orderly medium wrapped site volumes free' where
  stocked := h.stocked
  storage := ⟨h.storage.shape, fun i hi => h.storage.same i fun hf => hi (hfree i hf)⟩

/-- A new catalog on new volumes. -/
theorem start (hfresh : ∀ number, (Site.volume number).read site = .new (medium number) (wrapped number))
    {settings : Settings} {c : Catalog Site}
    (hnew : Catalog.new (volumes.map site.factory) settings = .ok c) :
    (Session.start c site).Orderly medium wrapped site volumes free where
  stocked := start_stocked hnew site
  storage := by
    refine ⟨⟨fun number => ?_, fun i => ?_⟩, fun i _ => Site.bareContents_new (hfresh i.1)⟩
    · show ((Site.volume number).read site).medium = _ ∧ ((Site.volume number).read site).wrapped = _
      rw [hfresh number]
      exact ⟨rfl, rfl⟩
    · show DiskMap.Intact ((Volume.diskPlace i.2).read ((Site.volume i.1).read site))
      rw [hfresh i.1]
      exact .empty

variable (h : session.Orderly medium wrapped site volumes free)
include h

theorem stands : Catalog.Stands (volumes.map site.factory)
    ((Site.vault medium wrapped).Lodges Prod.mk volumes)
    ((Site.vault medium wrapped).EmptyOutside (Site.Readable medium wrapped) free)
    (session.catalog, session.storage) :=
  ⟨h.stocked.catalog, h.storage⟩

/-- **An event fills free maps only**, if they are those that its request may fill. -/
theorem step {e : CatalogEvent} (now : Int64)
    (hask : ∀ index r h, e = .ask index r → session.handles[index]? = some h →
      ∀ i, h.Fills Prod.mk i → free i) :
    (session.step now e).Orderly medium wrapped site volumes free := by
  have hstores := Site.supplies_readable medium wrapped site
  obtain ⟨hstocked, hstorage⟩ := step_stocked h.stocked h.storage
    ((Site.vault_tidy medium wrapped).supports hstores now (e.through session))
    fun index r h' he hget => hstores.carryOut_emptyOutside
      (h.stocked.handles h' (List.mem_of_getElem? hget)) (hask index r h' he hget) r
  exact ⟨hstocked, hstorage⟩

/-- A drop fills no map. -/
theorem dropTable (now : Int64) (name : String) :
    Orderly
      ⟨(Catalog.dropTable now name (session.catalog, session.storage)).2.1,
        (Catalog.dropTable now name (session.catalog, session.storage)).2.2, session.handles⟩
      medium wrapped site volumes free := by
  obtain ⟨hcatalog, hstorage⟩ := (Catalog.dropTable_delivers
    ((Site.vault_tidy medium wrapped).supports (Site.supplies_readable medium wrapped site) now
      (some (.table (Catalog.key name))))).keeps _ h.stands
  exact ⟨⟨hcatalog, h.stocked.handles⟩, hstorage⟩

/-- A registration hands out a table on the volumes and fills no map. -/
theorem register {schema : Schema} {now : Int64} {o : TableStack Site}
    {final : Catalog Site × Site}
    (hend : Catalog.register now schema (session.catalog, session.storage) = (.ok o, final)) :
    ((Site.vault medium wrapped).Lays Prod.mk volumes o ∧
      Catalog.key o.schema.table = Catalog.key schema.table ∧ o.schema.fields = schema.fields) ∧
    (Site.vault medium wrapped).EmptyOutside (Site.Readable medium wrapped) free final.2 := by
  have hregister : (Catalog.register now schema).Delivers
      (Catalog.Stands (volumes.map site.factory)
        ((Site.vault medium wrapped).Lodges Prod.mk volumes)
        ((Site.vault medium wrapped).EmptyOutside (Site.Readable medium wrapped) free)) _ :=
    Catalog.register_delivers ((Site.vault_tidy medium wrapped).supports
      (Site.supplies_readable medium wrapped site) now _)
  have hkept := hregister.keeps _ h.stands
  rw [hend] at hkept
  exact ⟨hregister.good h.stands hend, hkept.2⟩

theorem fault (number : Nat) (fault : Fault) :
    { session with storage := session.storage.setFault number fault }.Orderly medium wrapped site
      volumes free where
  stocked := ⟨h.stocked.catalog, h.stocked.handles⟩
  storage := by
    obtain ⟨⟨hshaped, hintact⟩, hsame⟩ := h.storage
    refine ⟨⟨hshaped.write (hshaped number), hintact.of_disk rfl⟩, fun i hi => ?_⟩
    rw [← hsame i hi]
    exact Site.bareContents_write (medium i.1) i rfl rfl

theorem restart :
    { session with storage := session.storage.restart [] }.Orderly medium wrapped site volumes
      free where
  stocked := ⟨h.stocked.catalog, h.stocked.handles⟩
  storage := by
    obtain ⟨⟨hshaped, hintact⟩, hsame⟩ := h.storage
    refine ⟨⟨fun number => ?_, fun i => ?_⟩, fun i hi => ?_⟩
    · rw [Site.read_volume_restart]
      exact hshaped number
    · show DiskMap.Intact ((Volume.diskPlace i.2).read ((Site.volume i.1).read (Site.restart [] _)))
      rw [Site.read_volume_restart]
      exact hintact i
    · -- What was in memory is lost, and what is on disk was empty before.
      have hrestart := Site.bareContents_restart (medium i.1) i session.storage
      rw [show Site.bareContents (medium i.1) i session.storage = ExpiringMap.empty from hsame i hi,
        ite_self] at hrestart
      exact hrestart

theorem reopen {settings : Settings} {c : Catalog Site}
    (hnew : Catalog.new session.catalog.factories settings = .ok c) :
    { session with catalog := c }.Orderly medium wrapped site volumes free where
  stocked := by
    rw [h.stocked.catalog.factories] at hnew
    exact ⟨.new hnew, h.stocked.handles⟩
  storage := h.storage

end Orderly

/-- What has been handed out stays handed out. -/
theorem handles_step (session : Session Site) (now : Int64) (e : CatalogEvent) :
    session.handles ⊆ (session.step now e).handles := by
  unfold step
  split
  · exact List.subset_append_left _ _
  · exact List.Subset.refl _

/-- **A session that goes on** fills free maps only, where what is free grows with the handles
and takes in all that the handles asked may fill. -/
theorem ComesTo.orderly {allowed : Session Site → CatalogEvent → Prop} {first last : Session Site}
    (h : first.ComesTo allowed last) (free : List (Handle Site) → Site.MapId → Prop)
    {medium : Nat → Medium} {wrapped : Nat → Bool} {site : Site} {volumes : List Nat}
    (hgrows : ∀ {handles handles'}, handles ⊆ handles' → ∀ i, free handles i → free handles' i)
    (hask : ∀ {session : Session Site} {e}, allowed session e →
      session.Stocked (volumes.map site.factory)
        ((Site.vault medium wrapped).Lodges Prod.mk volumes) →
      ∀ index r h, e = .ask index r → session.handles[index]? = some h →
        ∀ i, h.Fills Prod.mk i → free session.handles i)
    (hfirst : first.Orderly medium wrapped site volumes (free first.handles)) :
    last.Orderly medium wrapped site volumes (free last.handles) := by
  induction h with
  | refl => exact hfirst
  | event before now he ih =>
    -- The event fills what is free with the handles there are; afterwards there may be more.
    exact (ih.step now (hask he ih.stocked)).mono (hgrows (handles_step _ now _))
  | fault before number fault ih => exact ih.fault number fault
  | restart before ih => exact ih.restart
  | reopen before hnew ih => exact ih.reopen hnew

end Session

/-! ### A name that is registered again -/

/-- A drop that found a table has torn it down and forgotten it. -/
theorem Catalog.dropTable_true {σ : Type} [PolicyKeeper σ] {c : Catalog σ} {s : σ} {now : Int64}
    {name : String} {left : Catalog σ × σ} (h : dropTable now name (c, s) = (.ok true, left)) :
    ∃ dropped, c.tables.get? (key name) = some dropped ∧
      dropped.stack.upkeep now .teardown s = (.ok (), left.2) := by
  obtain ⟨_, p, hcheck, hrest⟩ := Action.exists_of_bind_ok h
  obtain ⟨-, rfl⟩ := Prod.mk.inj hcheck
  obtain ⟨o?, p, hlook, hrest⟩ := Action.exists_of_bind_ok hrest
  obtain ⟨hvalue, rfl⟩ := Prod.mk.inj hlook
  cases o? with
  | none => cases hrest
  | some dropped =>
    obtain ⟨_, p, herase, hrest⟩ := Action.exists_of_bind_ok hrest
    obtain ⟨-, rfl⟩ := Prod.mk.inj herase
    obtain ⟨_, p, hteardown, hrest⟩ := Action.exists_of_bind_ok hrest
    obtain ⟨hdone, rfl⟩ := Prod.mk.inj hteardown
    cases hrest
    exact ⟨dropped, Except.ok.inj hvalue, Prod.ext hdone rfl⟩

/-- A run on new volumes in which a table is dropped and one of its name registered later,
nothing being asked of tables of the name in between. -/
structure Redeclaration (medium : Nat → Medium) (wrapped : Nat → Bool) where
  /-- The site at first. -/
  site : Site
  fresh : ∀ number, (Site.volume number).read site = .new (medium number) (wrapped number)
  /-- The volumes of the layers. -/
  volumes : List Nat
  settings : Settings
  /-- The first catalog. -/
  catalog : Catalog Site
  opened : Catalog.new (volumes.map site.factory) settings = .ok catalog
  /-- The session before the drop. -/
  before : Session Site
  reached : (Session.start catalog site).ComesTo (fun _ _ => True) before
  name : String
  dropTime : Int64
  /-- What the drop leaves. -/
  left : Catalog Site × Site
  drop : Catalog.dropTable dropTime name (before.catalog, before.storage) = (.ok true, left)
  /-- The session before the registration. -/
  after : Session Site
  spared : Session.ComesTo (fun session e => e.asks session ≠ some (.table (Catalog.key name)))
    ⟨left.1, left.2, before.handles⟩ after
  schema : Schema
  sameName : Catalog.key schema.table = Catalog.key name
  registerTime : Int64
  /-- The table that is registered. -/
  table : TableStack Site
  /-- What the registration leaves. -/
  final : Catalog Site × Site
  registration : Catalog.register registerTime schema (after.catalog, after.storage) =
    (.ok table, final)

namespace Redeclaration

variable {medium : Nat → Medium} {wrapped : Nat → Bool} (r : Redeclaration medium wrapped)

/-- Before the drop only such maps hold entries as some handle could fill. -/
theorem before_orderly : r.before.Orderly medium wrapped r.site r.volumes
    fun i => ∃ h ∈ r.before.handles, h.Fills Prod.mk i := by
  refine r.reached.orderly (fun handles i => ∃ h ∈ handles, h.Fills Prod.mk i) ?_ ?_
    (.start r.fresh r.opened)
  · rintro handles handles' hsub i ⟨h, hh, hi⟩
    exact ⟨h, hsub hh, hi⟩
  · rintro session e - - index request h rfl hget i hi
    exact ⟨h, List.mem_of_getElem? hget, hi⟩

/-- The drop fills no map. -/
theorem left_orderly : Session.Orderly ⟨r.left.1, r.left.2, r.before.handles⟩ medium wrapped r.site
    r.volumes fun i =>
      (Site.vault medium wrapped).contents i r.before.storage ≠ ExpiringMap.empty := by
  have hbefore := r.before_orderly
  have hfilled : r.before.Orderly medium wrapped r.site r.volumes fun i =>
      (Site.vault medium wrapped).contents i r.before.storage ≠ ExpiringMap.empty :=
    ⟨hbefore.stocked, hbefore.storage.shape, fun i hi => not_not.1 hi⟩
  have hdrop := hfilled.dropTable r.dropTime r.name
  rwa [r.drop] at hdrop

/-- What is of the name and empty after the drop is so when the name is registered again. -/
theorem after_orderly : r.after.Orderly medium wrapped r.site r.volumes fun i =>
    (Resident.table (Catalog.key r.name)).Reaches Prod.mk i →
      (Site.vault medium wrapped).contents i r.left.2 ≠ ExpiringMap.empty := by
  have hleft := r.left_orderly
  refine r.spared.orderly (fun _ i =>
    (Resident.table (Catalog.key r.name)).Reaches Prod.mk i →
      (Site.vault medium wrapped).contents i r.left.2 ≠ ExpiringMap.empty)
    (fun _ _ hi => hi) ?_ ⟨hleft.stocked, hleft.storage.shape, fun i hi => ?_⟩
  · rintro session e he hstocked index request h rfl hget i hi ⟨k, name, howns, hplace⟩
    -- A map has one resident, so the request was made to a table of the name.
    exfalso
    obtain ⟨l, name', howns', rfl⟩ :=
      (hstocked.handles h (List.mem_of_getElem? hget)).reaches hi
    obtain rfl := congrArg Prod.snd hplace
    apply he
    rw [← Resident.eq_of_owns howns' howns]
    exact congrArg (Option.map Handle.resident) hget
  · by_contra hfilled
    exact hi fun _ => hfilled

/-- The registration opens a table of the name on the volumes, and fills none of its maps that
was empty after the drop. -/
theorem registered :
    ((Site.vault medium wrapped).Lays Prod.mk r.volumes r.table ∧
      Catalog.key r.table.schema.table = Catalog.key r.name ∧
      r.table.schema.fields = r.schema.fields) ∧
    (Site.vault medium wrapped).EmptyOutside (Site.Readable medium wrapped)
      (fun i => (Resident.table (Catalog.key r.name)).Reaches Prod.mk i →
        (Site.vault medium wrapped).contents i r.left.2 ≠ ExpiringMap.empty) r.final.2 := by
  obtain ⟨⟨hlays, hkey, hfields⟩, hfinal⟩ := r.after_orderly.register r.registration
  exact ⟨⟨hlays, hkey.trans r.sameName, hfields⟩, hfinal⟩

/-- A map of the name that is empty after the drop is empty after the registration. -/
theorem empty_of_left {k : Nat} {f : String}
    (h : (Site.vault medium wrapped).contents (k, mapName r.name f) r.left.2 = ExpiringMap.empty) :
    (Site.vault medium wrapped).contents (k, mapName r.name f) r.final.2 = ExpiringMap.empty := by
  obtain ⟨⟨hlays, hkey, -⟩, hfinal⟩ := r.registered
  refine hfinal.same _ fun hfilled => hfilled ⟨k, _, ?_, rfl⟩ h
  exact ⟨r.table.schema.table, f, hlays.name, hkey, mapName_eq_of_key hkey f⟩

/-- The index and the columns of the table that was dropped are empty. -/
theorem exists_dropped : ∃ dropped, r.before.catalog.tables.get? (Catalog.key r.name) = some dropped ∧
    ∀ k ∈ r.volumes, ∀ f ∈ idField :: dropped.schema.fields.keys,
      (Site.vault medium wrapped).contents (k, mapName r.name f) r.final.2 = ExpiringMap.empty := by
  obtain ⟨dropped, hget, hteardown⟩ := Catalog.dropTable_true r.drop
  obtain ⟨hkey, hlays⟩ := r.before_orderly.stocked.catalog.tables hget
  refine ⟨dropped, hget, fun k hk f hf => r.empty_of_left ?_⟩
  rw [mapName_eq_of_key hkey]
  exact Vault.Lays.empty_of_teardown (Site.vault_tidy medium wrapped) hlays hteardown hk hf

/-- A column that no table of the name had before the drop is empty. -/
theorem empty_of_new {f : String} (hf : f ∈ r.schema.fields.keys)
    (hnew : ∀ earlier, Handle.table earlier ∈ r.before.handles →
      Catalog.key earlier.schema.table = Catalog.key r.name → f ∉ earlier.schema.fields.keys) (k : Nat) :
    (Site.vault medium wrapped).contents (k, mapName r.name f) r.final.2 = ExpiringMap.empty := by
  obtain ⟨⟨hlays, hkey, -⟩, -⟩ := r.registered
  have hbefore := r.before_orderly
  refine r.empty_of_left ?_
  refine r.left_orderly.storage.same _ (not_not.2 (hbefore.storage.same _ ?_))
  rintro ⟨h, hh, hfills⟩
  -- A handle that could fill the column is of a table of the name, and has the field.
  have howns : (Resident.table (Catalog.key r.name)).Owns (mapName r.name f) :=
    ⟨r.table.schema.table, f, hlays.name, hkey, mapName_eq_of_key hkey f⟩
  have hlodges := hbefore.stocked.handles h hh
  obtain ⟨l, name, howns', hplace⟩ := hlodges.reaches hfills
  obtain rfl := congrArg Prod.snd hplace
  have hresident := Resident.eq_of_owns howns' howns
  cases h with
  | map m => cases hresident
  | table earlier =>
    have hkey' : Catalog.key earlier.schema.table = Catalog.key r.name := Resident.table.inj hresident
    obtain ⟨_, g, hg, hmap⟩ := hfills
    have hname : mapName r.name f = mapName r.name g :=
      (congrArg Prod.snd hmap).trans (mapName_eq_of_key hkey' g)
    obtain rfl := mapName_inj hname
    rcases List.mem_cons.1 hg with rfl | hfield
    · exact r.schema.reserved hf
    · exact hnew earlier hh hkey' hfield

/-- **When the table is vacant.**  While no volume has a fault, the table that is registered
has no keys in any layer and no records just when none of its columns that the dropped table
lacked holds a live entry; and that is so if the dropped table had each of its fields that any
earlier table of the name had. -/
theorem vacant (hquiet : ∀ volume ∈ r.final.2.volumes.values, volume.fault? = none) (time : Int64) :
    ∃ dropped, r.before.catalog.tables.get? (Catalog.key r.name) = some dropped ∧
      (r.table.Vacant time r.final.2 ↔
        ∀ k ∈ r.volumes, ∀ f ∈ r.schema.fields.keys, f ∉ dropped.schema.fields.keys → ∀ id,
          ((Site.vault medium wrapped).contents (k, mapName r.name f) r.final.2).live? time id =
            none) ∧
      ((∀ earlier, Handle.table earlier ∈ r.before.handles →
          Catalog.key earlier.schema.table = Catalog.key r.name → ∀ f ∈ r.schema.fields.keys,
          f ∈ earlier.schema.fields.keys → f ∈ dropped.schema.fields.keys) →
        r.table.Vacant time r.final.2) := by
  obtain ⟨dropped, hget, hempty⟩ := r.exists_dropped
  obtain ⟨⟨hlays, hkey, hfields⟩, hreadable, -⟩ := r.registered
  have hiff : r.table.Vacant time r.final.2 ↔
      ∀ k ∈ r.volumes, ∀ f ∈ r.schema.fields.keys, f ∉ dropped.schema.fields.keys → ∀ id,
        ((Site.vault medium wrapped).contents (k, mapName r.name f) r.final.2).live? time id =
          none := by
    rw [hlays.vacant_iff (Site.vault_reliable medium wrapped) (hreadable.sound hquiet), hfields]
    constructor
    · intro hnone k hk f hf _
      rw [← mapName_eq_of_key hkey]
      exact hnone k hk f (List.mem_cons_of_mem _ hf)
    · intro hnone k hk f hf id
      rw [mapName_eq_of_key hkey]
      -- The index and what the dropped table had are empty whatever the others hold.
      by_cases hdropped : f ∈ idField :: dropped.schema.fields.keys
      · rw [hempty k hk f hdropped]
        rfl
      · obtain ⟨hid, hlacked⟩ := not_or.1 (mt List.mem_cons.2 hdropped)
        exact hnone k hk f ((List.mem_cons.1 hf).resolve_left hid) hlacked id
  refine ⟨dropped, hget, hiff, fun hearlier => hiff.2 fun k _ f hf hlacked id => ?_⟩
  have hnew := r.empty_of_new hf (fun earlier hh hkey' hfield =>
    hlacked (hearlier earlier hh hkey' f hf hfield)) k
  rw [hnew]
  rfl

end Redeclaration

/-! ### A column that comes back -/

/-- The table, and the site with it, after one of a name is dropped and another registered. -/
def Session.redeclare (session : Session Site) (name : String) (schema : Schema) :
    Option (TableStack Site × Site) :=
  match Catalog.dropTable 0 name (session.catalog, session.storage) with
  | (.ok true, left) =>
    match Catalog.register 0 schema left with
    | (.ok o, final) => some (o, final.2)
    | (.error _, _) => none
  | _ => none

/-- What is redeclared at once is a redeclaration. -/
theorem Redeclaration.of_redeclare {medium : Nat → Medium} {wrapped : Nat → Bool} {site : Site}
    (hfresh : ∀ number, (Site.volume number).read site = .new (medium number) (wrapped number))
    {volumes : List Nat} {settings : Settings} {c : Catalog Site}
    (hnew : Catalog.new (volumes.map site.factory) settings = .ok c) {session : Session Site}
    (hreached : (Session.start c site).ComesTo (fun _ _ => True) session) (schema : Schema)
    {o : TableStack Site} {s : Site}
    (h : session.redeclare schema.table schema = some (o, s)) :
    ∃ r : Redeclaration medium wrapped, r.before = session ∧ r.name = schema.table ∧
      r.schema = schema ∧ r.table = o ∧ r.final.2 = s := by
  unfold Session.redeclare at h
  split at h
  · next left hdrop =>
    split at h
    · next o' final hregister =>
      obtain ⟨rfl, rfl⟩ := Prod.mk.inj (Option.some.inj h)
      exact ⟨⟨site, hfresh, volumes, settings, c, hnew, session, hreached, schema.table, 0, left,
        hdrop, _, .refl, schema, rfl, 0, o', final, hregister⟩, rfl, rfl, rfl, rfl, rfl⟩
    · cases h
  · cases h

/-- A site with a disk. -/
def diskSite : Site := .ofVolumes default [.new .disk false]

theorem diskSite_fresh (number : Nat) : (Site.volume number).read diskSite =
    .new (if number = 0 then .disk else .memory) false := by
  rw [diskSite, Site.read_volume_ofVolumes]
  match number with
  | 0 => rfl
  | n + 1 => rfl

/-- A catalog on the disk. -/
def diskCatalog : Catalog Site := ⟨[0].map diskSite.factory, .default, .empty, .empty⟩

theorem diskCatalog_new : Catalog.new ([0].map diskSite.factory) .default = .ok diskCatalog := by
  have hvalid : Settings.default.validate = .ok () := by decide +kernel
  unfold Catalog.new
  rw [hvalid]
  rfl

/-- Items without a text. -/
def numberItems : Schema := .ofFields "items" [("num", .integer)] (by decide +kernel)

/-- The text of an item is stored. -/
def itemStored : Session Site :=
  ((Session.start diskCatalog diskSite).step 0 (.register Layout.items.schema)).step 0
    (.ask 0 (.record (.append (some "r") "" [("str_val", .text "test")])))

/-- The catalog is opened again after a restart, and now items have no text. -/
def itemsNarrowed : Session Site :=
  Session.step ⟨diskCatalog, itemStored.storage.restart [], itemStored.handles⟩ 0
    (.register numberItems)

theorem itemStored_reached :
    (Session.start diskCatalog diskSite).ComesTo (fun _ _ => True) itemStored :=
  .event (.event .refl 0 trivial) 0 trivial

theorem itemsNarrowed_reached :
    (Session.start diskCatalog diskSite).ComesTo (fun _ _ => True) itemsNarrowed := by
  have horderly : itemStored.Orderly (fun number => if number = 0 then .disk else .memory)
      (fun _ => false) diskSite [0] fun _ => True :=
    itemStored_reached.orderly (fun _ _ => True) (fun _ _ => id) (fun _ _ _ _ _ _ _ _ _ => trivial)
      (.start diskSite_fresh diskCatalog_new)
  have hopen : Catalog.new itemStored.catalog.factories .default = .ok diskCatalog := by
    rw [horderly.stocked.catalog.factories]
    exact diskCatalog_new
  exact .event (itemStored_reached.reopened hopen) 0 trivial

/-- **A dropped table does not always stay dropped**: the text that was stored before the
restart is there when items have a text again. -/
theorem Redeclaration.leftover : ∃ r : Redeclaration
    (fun number => if number = 0 then .disk else .memory) (fun _ => false),
    (∀ volume ∈ r.final.2.volumes.values, volume.fault? = none) ∧
      (r.table.get 0 "r" r.final.2).1.toOption =
        some (some (.ofFields "r" [("str_val", .text "test")])) ∧
      ¬r.table.Vacant 0 r.final.2 := by
  have hrun : (itemsNarrowed.redeclare "items" Layout.items.schema).map (fun p =>
      (p.2.volumes.values.map Volume.fault?, (p.1.get 0 "r" p.2).1.toOption)) =
      some ([none], some (some (.ofFields "r" [("str_val", .text "test")]))) := by decide +kernel
  obtain ⟨⟨o, s⟩, hredeclare, hseen⟩ := Option.map_eq_some_iff.1 hrun
  obtain ⟨hfaults, hget⟩ := Prod.mk.inj hseen
  obtain ⟨r, -, -, -, rfl, rfl⟩ := of_redeclare diskSite_fresh diskCatalog_new
    itemsNarrowed_reached Layout.items.schema hredeclare
  refine ⟨r, fun volume hvolume => ?_, hget, fun hvacant => ?_⟩
  · have hfault : volume.fault? ∈ [none] := hfaults ▸ List.mem_map_of_mem hvolume
    exact List.mem_singleton.1 hfault
  · rw [hvacant.stack "r"] at hget
    cases hget

/-- Where the dropped table had all fields, the one that is registered is vacant. -/
theorem Redeclaration.vacant_items : ∃ r : Redeclaration
    (fun number => if number = 0 then .disk else .memory) (fun _ => false),
    r.before = itemStored ∧ r.schema = Layout.items.schema ∧ r.table.Vacant 0 r.final.2 := by
  have hrun : (itemStored.redeclare "items" Layout.items.schema).map (fun p =>
      p.2.volumes.values.map Volume.fault?) = some [none] := by decide +kernel
  have hdropped : (itemStored.catalog.tables.get? (Catalog.key "items")).map TableStack.schema =
      some Layout.items.schema := by decide +kernel
  obtain ⟨⟨o, s⟩, hredeclare, hfaults⟩ := Option.map_eq_some_iff.1 hrun
  obtain ⟨r, hbefore, hname, hschema, rfl, rfl⟩ := of_redeclare diskSite_fresh diskCatalog_new
    itemStored_reached Layout.items.schema hredeclare
  have hquiet : ∀ volume ∈ r.final.2.volumes.values, volume.fault? = none := by
    intro volume hvolume
    have hfault : volume.fault? ∈ [none] := hfaults ▸ List.mem_map_of_mem hvolume
    exact List.mem_singleton.1 hfault
  obtain ⟨dropped, hget, -, hvacant⟩ := vacant r hquiet 0
  have hsame : dropped.schema = r.schema := by
    have hitems : r.name = "items" := hname
    rw [hbefore, hitems] at hget
    rw [hget] at hdropped
    rw [hschema]
    exact Option.some.inj hdropped
  refine ⟨r, hbefore, hschema, hvacant fun _ _ _ f hf _ => ?_⟩
  rwa [hsame]

end LayeredStore
