import LayeredStore.Proofs.Handles
import LayeredStore.Record.Names
import LayeredStore.Proofs.SiteVault
import LayeredStore.Proofs.TableLayout

/-! # Residents of a catalog

A catalog tells tables and maps apart by their names in capitals, while the maps below are
named in small letters.  Both fold the same names, a valid name has no `#`, and every map of
a table has one right after the table's name.  So a map below belongs to one resident at
most (`Resident.eq_of_owns`), whatever the names of the fields.

What stores hand out is then divided among the residents: a table or a map that is opened
works on maps of its own (`Vault.Houses`), and opening it changes no entry.  Volumes of a
site are such stores, whatever faults they have (`Site.supplies`).
-/
namespace LayeredStore

/-! ### Names of maps -/

/-- A valid name has no `#`. -/
theorem notMem_of_checkName {name : String} (h : checkName name = .ok ()) : '#' ∉ name.toList := by
  have hnone : nameFault? name = none := by
    unfold checkName at h
    split at h
    · cases h
    · assumption
  intro hmem
  unfold nameFault? at hnone
  split at hnone
  · cases hnone
  · next first rest hname =>
    split at hnone
    · cases hnone
    · split at hnone
      · next hall =>
        rw [hname] at hmem
        have hhash := List.all_eq_true.1 hall '#' hmem
        revert hhash
        decide +kernel
      · cases hnone

theorem Text.notMem_lower {name : String} (h : '#' ∉ name.toList) : '#' ∉ (lower name).toList := by
  rw [toList_lower]
  intro hmem
  obtain ⟨c, hc, heq⟩ := List.mem_map.1 hmem
  rw [eq_of_toLower_eq rfl heq] at hc
  exact h hc

theorem toList_mapName (table suffix : String) :
    (mapName table suffix).toList = (Text.lower table).toList ++ '#' :: suffix.toList := by
  simp [mapName]

/-- What stands before the first of some separators is found again. -/
theorem eq_of_append_separator {α : Type} {separator : α} {x y u w : List α}
    (hx : separator ∉ x) (hy : separator ∉ y) (h : x ++ separator :: u = y ++ separator :: w) :
    x = y ∧ u = w := by
  induction x generalizing y with
  | nil =>
    cases y with
    | nil => exact ⟨rfl, (List.cons.inj h).2⟩
    | cons b y => exact absurd ((List.cons.inj h).1 ▸ List.mem_cons_self) hy
  | cons a x ih =>
    cases y with
    | nil => exact absurd ((List.cons.inj h).1 ▸ List.mem_cons_self) hx
    | cons b y =>
      obtain ⟨rfl, hrest⟩ := List.cons.inj h
      obtain ⟨rfl, rfl⟩ := ih (fun hm => hx (List.mem_cons_of_mem a hm))
        (fun hm => hy (List.mem_cons_of_mem a hm)) hrest
      exact ⟨rfl, rfl⟩

/-- **The name of a table's map tells the table and the suffix**, whatever is in the suffix. -/
theorem eq_of_mapName {t u f g : String} (ht : checkName t = .ok ()) (hu : checkName u = .ok ())
    (h : mapName t f = mapName u g) : Text.lower t = Text.lower u ∧ f = g := by
  have hchars := congrArg String.toList h
  rw [toList_mapName, toList_mapName] at hchars
  obtain ⟨hname, hsuffix⟩ := eq_of_append_separator
    (Text.notMem_lower (notMem_of_checkName ht)) (Text.notMem_lower (notMem_of_checkName hu)) hchars
  exact ⟨String.toList_injective hname, String.toList_injective hsuffix⟩

/-- A map of a table is never named like a map of its own. -/
theorem mapName_ne_lower {t m f : String} (hm : checkName m = .ok ()) :
    mapName t f ≠ Text.lower m := by
  intro h
  apply Text.notMem_lower (notMem_of_checkName hm)
  rw [← h, toList_mapName]
  exact List.mem_append_right _ List.mem_cons_self

/-- Names that are one in small letters are one in capitals. -/
theorem Catalog.key_eq_of_lower {a b : String} (h : Text.lower a = Text.lower b) :
    key a = key b := by
  have hupper := congrArg Text.upper h
  rwa [Text.upper_lower, Text.upper_lower] at hupper

/-- And the other way around. -/
theorem Catalog.lower_eq_of_key {a b : String} (h : key a = key b) : Text.lower a = Text.lower b := by
  have hlower : Text.lower (Text.upper a) = Text.lower (Text.upper b) := congrArg Text.lower h
  rwa [Text.lower_upper, Text.lower_upper] at hlower

/-- Tables of one key have the same maps below. -/
theorem mapName_eq_of_key {t u : String} (h : Catalog.key t = Catalog.key u) (f : String) :
    mapName t f = mapName u f := by
  rw [mapName, Catalog.lower_eq_of_key h, mapName]

/-! ### Residents -/

/-- A table or a map of a catalog, under its name in capitals. -/
inductive Resident
  | table (key : String)
  | map (key : String)
  deriving DecidableEq

/-- The names of the maps below that belong to a resident. -/
def Resident.Owns : Resident → String → Prop
  | .table key, name => ∃ t f, checkName t = .ok () ∧ Catalog.key t = key ∧ mapName t f = name
  | .map key, name => ∃ m, checkName m = .ok () ∧ Catalog.key m = key ∧ Text.lower m = name

/-- **A map below belongs to one resident.** -/
theorem Resident.eq_of_owns {A B : Resident} {name : String} (hA : A.Owns name)
    (hB : B.Owns name) : A = B := by
  cases A with
  | table a =>
    obtain ⟨t, f, ht, rfl, rfl⟩ := hA
    cases B with
    | table b =>
      obtain ⟨u, g, hu, rfl, hname⟩ := hB
      have hfold := (eq_of_mapName hu ht hname).1
      rw [Catalog.key_eq_of_lower hfold]
    | map b =>
      obtain ⟨m, hm, -, hname⟩ := hB
      exact absurd hname.symm (mapName_ne_lower hm)
  | map a =>
    obtain ⟨m, hm, rfl, rfl⟩ := hA
    cases B with
    | table b =>
      obtain ⟨u, g, -, -, hname⟩ := hB
      exact absurd hname (mapName_ne_lower hm)
    | map b =>
      obtain ⟨m', -, rfl, hname⟩ := hB
      rw [Catalog.key_eq_of_lower hname]

/-- The resident that a handle is of. -/
def Handle.resident {σ : Type} : Handle σ → Resident
  | table o => .table (Catalog.key o.schema.table)
  | map m => .map (Catalog.key m.name)

/-! ### Actions that deliver -/

/-- An action keeps what holds of the state, and what it ends in is good. -/
structure Action.Delivers {σ ε α : Type} (x : Action σ ε α) (holds : σ → Prop) (good : α → Prop) :
    Prop where
  keeps : x.Keeps holds
  good : ∀ {s a t}, holds s → x s = (.ok a, t) → good a

namespace Action

variable {σ ε ε' α β : Type} {holds : σ → Prop} {good : α → Prop}

/-- Changing errors makes none a value. -/
theorem ok_of_mapError {x : Action σ ε α} {f : ε → ε'} {a : α} {s t : σ}
    (h : x.mapError f s = (.ok a, t)) : x s = (.ok a, t) := by
  unfold mapError at h
  split at h <;> cases h
  assumption

theorem Keeps.delivers {x : Action σ ε α} (h : x.Keeps holds) : x.Delivers holds fun _ => True :=
  ⟨h, fun _ _ => trivial⟩

namespace Delivers

theorem pure {a : α} (h : good a) : (Pure.pure a : Action σ ε α).Delivers holds good where
  keeps := .pure a
  good _ hend := by
    cases hend
    exact h

theorem fail (e : ε) : (Action.fail e : Action σ ε α).Delivers holds good where
  keeps := .fail e
  good _ hend := by cases hend

theorem ofExcept (x : Except ε α) :
    (Action.ofExcept x : Action σ ε α).Delivers holds fun a => x = .ok a where
  keeps := .ofExcept x
  good _ hend := congrArg Prod.fst hend

theorem bind {x : Action σ ε α} {f : α → Action σ ε β} {good' : β → Prop}
    (hx : x.Delivers holds good) (hf : ∀ a, good a → (f a).Delivers holds good') :
    (x >>= f).Delivers holds good' where
  keeps s hs := by
    have hkept := hx.keeps s hs
    rcases hend : x s with ⟨e | a, t⟩
    · rw [Action.bind_error hend]
      rwa [hend] at hkept
    · rw [Action.bind_ok hend]
      rw [hend] at hkept
      exact (hf a (hx.good hs hend)).keeps t hkept
  good {s b t} hs hend := by
    obtain ⟨a, u, hfirst, hrest⟩ := Action.exists_of_bind_ok hend
    have hkept := hx.keeps s hs
    rw [hfirst] at hkept
    exact (hf a (hx.good hs hfirst)).good hkept hrest

theorem mono {x : Action σ ε α} {good' : α → Prop} (hx : x.Delivers holds good)
    (h : ∀ a, good a → good' a) : x.Delivers holds good' :=
  ⟨hx.keeps, fun hs hend => h _ (hx.good hs hend)⟩

theorem mapError {x : Action σ ε α} (hx : x.Delivers holds good) (f : ε → ε') :
    (x.mapError f).Delivers holds good where
  keeps := hx.keeps.mapError f
  good hs hend := hx.good hs (ok_of_mapError hend)

end Delivers

end Action

/-! ### Putting stacks together -/

section

variable {σ : Type} [PolicyKeeper σ] {holds : σ → Prop}
  (hissue : ∀ s, holds s → holds (PolicyKeeper.issue s).2)
  (hpolicy : ∀ ticket p s, holds s → holds ((PolicyKeeper.policy ticket).write p s))
include hissue hpolicy

theorem Stack.compose_delivers {V : Type} (name : String) (layers : List (Layer σ V))
    (settings : Settings) :
    (Stack.compose name layers settings).Delivers holds
      fun stack => stack.name = name ∧ stack.layers = layers := by
  unfold Stack.compose
  split
  · exact .fail _
  · cases layers with
    | nil => exact .fail _
    | cons l rest =>
      constructor
      · intro s hs
        exact hpolicy _ _ _ (hissue s hs)
      · intro s stack t _ hend
        cases hend
        exact ⟨rfl, rfl⟩

theorem TableStack.ofTables_delivers (tables : List (Table σ)) (settings : Settings) :
    (TableStack.ofTables tables settings).Delivers holds
      fun o => o.Composed ∧ o.tables = tables ∧ ∃ t ∈ tables, o.schema = t.schema := by
  cases tables with
  | nil => exact .fail _
  | cons first rest =>
    unfold TableStack.ofTables
    dsimp only
    split
    · exact .fail _
    · refine .bind (Stack.compose_delivers hissue hpolicy _ _ _) fun stack hstack => .pure ?_
      refine ⟨⟨hstack.2, ?_⟩, rfl, first, List.mem_cons_self, rfl⟩
      rw [List.getD_eq_getElem?_getD]
      cases hanswering : (first :: rest)[settings.queryLayer.index (first :: rest).length]? with
      | none => exact List.mem_cons_self
      | some t => exact List.mem_of_getElem? hanswering

end

/-- A layer is made of each map that is opened. -/
theorem Catalog.openLayers_delivers {σ : Type} {holds : σ → Prop} {opened : Backend σ → Prop}
    {name : String} {factories : List (Factory σ)}
    (h : ∀ f ∈ factories, (f.openMap name).Delivers holds opened) :
    (Catalog.openLayers name factories).Delivers holds
      fun layers => ∀ l ∈ layers, ∃ b, l = Layer.ofBackend b ∧ opened b := by
  induction factories with
  | nil => exact .pure nofun
  | cons factory rest ih =>
    obtain ⟨hfirst, hrest⟩ := List.forall_mem_cons.1 h
    refine .bind (hfirst.mapError _) fun b hb => ?_
    refine .bind (ih hrest) fun layers hlayers => .pure ?_
    exact List.forall_mem_cons.2 ⟨⟨b, rfl, hb⟩, hlayers⟩

/-! ### Stores -/

/-- Stores hand out the backends of a vault while the state has a certain shape: a name
opened again is the same map, and different names are different maps.  Opening may fail, and
two stores may share their maps. -/
structure Vault.Supplies {σ κ ι : Type} [PolicyKeeper σ] (v : Vault σ ι) (shape : σ → Prop)
    (stores : κ → Factory σ) (place : κ → String → ι) : Prop where
  /-- The maps of a name are one. -/
  opened : ∀ {k name s b t}, shape s → (stores k).openMap name s = (.ok b, t) →
    b = v.backend (place k name)
  /-- No two names are one map. -/
  apart : ∀ {k l a b}, place k a = place l b → a = b
  /-- Opening changes no entry. -/
  entries : ∀ k name i s, v.contents i ((stores k).openMap name s).2 = v.contents i s
  /-- Nothing changes the shape of the state. -/
  opening : ∀ k name, ((stores k).openMap name).Keeps shape
  requests : ∀ i r now, ((v.backend i).perform r now).Keeps shape
  policies : ∀ ticket p s, shape s → shape ((PolicyKeeper.policy ticket).write p s)
  issue : ∀ s, shape s → shape (PolicyKeeper.issue s).2

section

variable {σ κ ι : Type} [PolicyKeeper σ] {v : Vault σ ι} {shape : σ → Prop}
  {stores : κ → Factory σ} {place : κ → String → ι}

/-- The state has its shape, and only the free maps may hold other entries than given. -/
structure Vault.Confined (v : Vault σ ι) (shape : σ → Prop) (free : ι → Prop)
    (given : ι → ExpiringMap Bytes) (s : σ) : Prop where
  shape : shape s
  same : ∀ i, ¬ free i → v.contents i s = given i

/-- The maps that belong to a resident. -/
def Resident.Reaches (A : Resident) (place : κ → String → ι) (i : ι) : Prop :=
  ∃ k name, A.Owns name ∧ i = place k name

/-- The handle works on maps of its resident only. -/
def Vault.Houses (v : Vault σ ι) (place : κ → String → ι) (h : Handle σ) : Prop :=
  h.BuiltOn fun b => ∃ i, h.resident.Reaches place i ∧ b = v.backend i

/-- The maps of a table that a store hands out. -/
def Table.Maps.named (place : κ → String → ι) (k : κ) (table : String) : Table.Maps ι :=
  ⟨place k (mapName table idField), fun f => place k (mapName table f)⟩

/-- A stack of tables has a table on each of some stores, each on the maps of its name. -/
structure Vault.Lays (v : Vault σ ι) (place : κ → String → ι) (ks : List κ) (o : TableStack σ) :
    Prop where
  composed : o.Composed
  name : checkName o.schema.table = .ok ()
  /-- Every table is on one of the stores. -/
  tables : ∀ t ∈ o.tables, t.schema = o.schema ∧
    ∃ k ∈ ks, t.LaidOn v.backend (.named place k o.schema.table)
  /-- Every store has one of the tables. -/
  stores : ∀ k ∈ ks, ∃ t ∈ o.tables, t.LaidOn v.backend (.named place k o.schema.table)

omit [PolicyKeeper σ] in
theorem Table.Maps.exists_of_mem_named {k : κ} {table : String} {fields : List String} {i : ι}
    (h : i ∈ (Table.Maps.named place k table).places fields) :
    ∃ f ∈ idField :: fields, i = place k (mapName table f) := by
  rcases List.mem_cons.1 h with rfl | hcolumn
  · exact ⟨idField, List.mem_cons_self, rfl⟩
  · obtain ⟨f, hf, rfl⟩ := List.mem_map.1 hcolumn
    exact ⟨f, List.mem_cons_of_mem _ hf, rfl⟩

omit [PolicyKeeper σ] in
theorem Table.Maps.mem_named {k : κ} {table f : String} {fields : List String}
    (h : f ∈ idField :: fields) :
    place k (mapName table f) ∈ (Table.Maps.named place k table).places fields := by
  rcases List.mem_cons.1 h with rfl | hf
  · exact List.mem_cons_self
  · exact List.mem_cons_of_mem _ (List.mem_map_of_mem hf)

/-- A stack that is laid on stores reaches the maps of its index and its columns only. -/
theorem Vault.Lays.builtOn {ks : List κ} {o : TableStack σ} (h : v.Lays place ks o) :
    (Handle.table o).BuiltOn fun b =>
      ∃ k ∈ ks, ∃ f ∈ idField :: o.schema.fields.keys,
        b = v.backend (place k (mapName o.schema.table f)) := by
  refine ⟨h.composed, fun t ht b hb => ?_⟩
  obtain ⟨hschema, k, hk, hlaid⟩ := h.tables t ht
  rw [hlaid.maps_eq, hschema] at hb
  obtain ⟨i, hi, rfl⟩ := List.mem_map.1 hb
  obtain ⟨f, hf, rfl⟩ := Table.Maps.exists_of_mem_named hi
  exact ⟨k, hk, f, hf, rfl⟩

/-- So it is housed. -/
theorem Vault.Lays.houses {ks : List κ} {o : TableStack σ} (h : v.Lays place ks o) :
    v.Houses place (.table o) := by
  refine h.builtOn.mono ?_
  rintro b ⟨k, -, f, -, rfl⟩
  have howns : (Handle.table o).resident.Owns (mapName o.schema.table f) :=
    ⟨o.schema.table, f, h.name, rfl, rfl⟩
  exact ⟨_, ⟨k, _, howns, rfl⟩, rfl⟩

namespace Vault.Supplies

variable {free : ι → Prop} {given : ι → ExpiringMap Bytes} (hstores : v.Supplies shape stores place)
include hstores

/-- **Requests to free maps reach nothing else.** -/
theorem keepsOn {i : ι} (hi : free i) (now : Int64) :
    (v.backend i).KeepsOn now (fun _ => True) (v.Confined shape free given) := by
  intro r _ s hs
  refine ⟨hstores.requests i r now s hs.shape, fun j hj => ?_⟩
  have hne : i ≠ j := by
    rintro rfl
    exact hj hi
  rw [v.others hne r now s]
  exact hs.same j hj

theorem policy_confined (ticket : Nat) (p : EscalationPolicy) (s : σ)
    (hs : v.Confined shape free given s) :
    v.Confined shape free given ((PolicyKeeper.policy ticket).write p s) where
  shape := hstores.policies ticket p s hs.shape
  same i hi := by
    rw [v.policies]
    exact hs.same i hi

theorem issue_confined {s : σ} (hs : v.Confined shape free given s) :
    v.Confined shape free given (PolicyKeeper.issue s).2 where
  shape := hstores.issue s hs.shape
  same i hi := by
    rw [v.issue]
    exact hs.same i hi

/-! ### Opening -/

theorem openMap_delivers (k : κ) (name : String) :
    ((stores k).openMap name).Delivers (v.Confined shape free given)
      (· = v.backend (place k name)) where
  keeps s hs := by
    refine ⟨hstores.opening k name s hs.shape, fun i hi => ?_⟩
    rw [hstores.entries]
    exact hs.same i hi
  good hs hend := hstores.opened hs.shape hend

theorem openMaps_delivers (k : κ) (table : String) (suffixes : List String) :
    (Table.openMaps (stores k) table suffixes).Delivers (v.Confined shape free given)
      (· = suffixes.map fun f => (f, v.backend (place k (mapName table f)))) := by
  induction suffixes with
  | nil => exact .pure rfl
  | cons suffix rest ih =>
    refine .bind ((hstores.openMap_delivers k _).mapError _) fun b hb => ?_
    refine .bind ih fun maps hmaps => .pure ?_
    rw [hb, hmaps]
    rfl

/-- A table is opened on the maps of its name. -/
theorem openTable_delivers (k : κ) (schema : Schema) (lifespan : UInt64) :
    (Table.openOn (stores k) schema lifespan).Delivers (v.Confined shape free given)
      fun t => t.schema = schema ∧ t.LaidOn v.backend (.named place k schema.table) := by
  refine .bind ((hstores.openMap_delivers k _).mapError _) fun index hindex => ?_
  refine .bind (hstores.openMaps_delivers k _ _) fun columns hcolumns => .pure ⟨rfl, hindex, ?_⟩
  subst hcolumns
  refine Dictionary.toList_ofList (List.pairwise_map.2 ?_)
  exact List.pairwise_map.2 schema.fields.ascending

theorem openTables_delivers (ks : List κ) (schema : Schema) (settings : Settings) :
    (TableStack.openTables schema settings (ks.map stores)).Delivers (v.Confined shape free given)
      fun tables =>
        (∀ t ∈ tables, t.schema = schema ∧
          ∃ k ∈ ks, t.LaidOn v.backend (.named place k schema.table)) ∧
        ∀ k ∈ ks, ∃ t ∈ tables, t.LaidOn v.backend (.named place k schema.table) := by
  induction ks with
  | nil => exact .pure ⟨nofun, nofun⟩
  | cons k rest ih =>
    refine .bind (hstores.openTable_delivers k schema _) fun t ht => ?_
    refine .bind (ih) fun tables htables => .pure ⟨fun u hu => ?_, fun l hl => ?_⟩
    · rcases List.mem_cons.1 hu with rfl | hu
      · exact ⟨ht.1, k, List.mem_cons_self, ht.2⟩
      · obtain ⟨hschema, l, hl, hlaid⟩ := htables.1 u hu
        exact ⟨hschema, l, List.mem_cons_of_mem k hl, hlaid⟩
    · rcases List.mem_cons.1 hl with rfl | hl
      · exact ⟨t, List.mem_cons_self, ht.2⟩
      · obtain ⟨u, hu, hlaid⟩ := htables.2 l hl
        exact ⟨u, List.mem_cons_of_mem t hu, hlaid⟩

/-- **A stack of tables is opened on the maps of its name.** -/
theorem openStack_delivers {ks : List κ} {schema : Schema}
    (hname : checkName schema.table = .ok ()) (settings : Settings) :
    (TableStack.openOn schema (ks.map stores) settings).Delivers (v.Confined shape free given)
      fun o => o.schema = schema ∧ v.Lays place ks o := by
  refine .bind (hstores.openTables_delivers ks schema settings) fun tables htables => ?_
  refine (TableStack.ofTables_delivers (fun _ => hstores.issue_confined) hstores.policy_confined
    tables settings).mono ?_
  rintro o ⟨hcomposed, rfl, t, ht, hschema⟩
  obtain rfl : o.schema = schema := hschema.trans (htables.1 t ht).1
  exact ⟨rfl, hcomposed, hname, htables.1, htables.2⟩

/-- A layered map is put together of the maps of its name. -/
theorem openLayers_delivers (ks : List κ) {name : String} (hname : checkName name = .ok ()) :
    (Catalog.openLayers (Text.lower name) (ks.map stores)).Delivers (v.Confined shape free given)
      fun layers => ∀ m : MapStack σ, m.name = name → m.layers = layers →
        v.Houses place (.map m) := by
  have hopen : ∀ f ∈ ks.map stores, (f.openMap (Text.lower name)).Delivers
      (v.Confined shape free given) fun b => ∃ k, b = v.backend (place k (Text.lower name)) := by
    intro f hf
    obtain ⟨k, -, rfl⟩ := List.mem_map.1 hf
    exact (hstores.openMap_delivers k _).mono fun b hb => ⟨k, hb⟩
  refine (Catalog.openLayers_delivers hopen).mono fun layers hlayers => ?_
  rintro m rfl rfl l hl
  obtain ⟨_, rfl, k, rfl⟩ := hlayers l hl
  exact ⟨_, rfl, _, ⟨k, _, ⟨m.name, hname, rfl, rfl⟩, rfl⟩, rfl⟩

end Vault.Supplies

end

/-! ### Volumes of a site -/

namespace Site

variable {medium : Nat → Medium} {wrapped : Nat → Bool} {s : Site}

/-- The volumes of a site are on given media, and given ones of them are wrapped. -/
def Shaped (medium : Nat → Medium) (wrapped : Nat → Bool) (s : Site) : Prop :=
  ∀ number, ((volume number).read s).medium = medium number ∧
    ((volume number).read s).wrapped = wrapped number

theorem Shaped.write (h : Shaped medium wrapped s) {number : Nat} {u : Volume}
    (hu : u.medium = medium number ∧ u.wrapped = wrapped number) :
    Shaped medium wrapped ((volume number).write u s) := by
  intro other
  by_cases hother : other = number
  · subst hother
    rw [(volume other).read_write]
    exact hu
  · rw [(volume_independent hother).read_of_write]
    exact h other

/-- What requests to a bare map and counting keep, requests to a map keep. -/
theorem map_keeps {holds : Site → Prop} {i : MapId} {r : Request} {now : Int64}
    (hbare : ((bareMap (medium i.1) i).perform r now).Keeps holds)
    (hcounts : ∀ t s, holds s → holds ((counts i).write t s)) :
    ((map medium wrapped i).perform r now).Keeps holds := by
  unfold map
  split
  · intro s hs
    have hguarded : holds
        (((bareMap (medium i.1) i).guarded (gate i.1 i.2)).perform r now s).2 := by
      simp only [Backend.guarded]
      have hgate := gate_snd i.1 i.2 r s
      generalize gate i.1 i.2 r s = gated at hgate
      obtain ⟨failure | _, u⟩ := gated <;> obtain rfl : u = s := hgate
      · exact hbare u hs
      · exact hs
    exact hcounts _ _ hguarded
  · exact hbare

/-- No request makes a volume one of another kind. -/
theorem map_keeps_shaped (i : MapId) (r : Request) (now : Int64) :
    ((map medium wrapped i).perform r now).Keeps (Shaped medium wrapped) := by
  refine map_keeps (fun s hs => ?_) fun t s hs => hs.write (hs i.1)
  unfold bareMap
  cases medium i.1 <;> exact hs.write (hs i.1)

/-- The maps of a site that are on disk can be read. -/
def Intact (s : Site) : Prop := ∀ i, DiskMap.Intact ((diskMap i).read s)

/-- The volumes are of given kinds, and their maps on disk can be read, whatever faults they
have. -/
structure Readable (medium : Nat → Medium) (wrapped : Nat → Bool) (s : Site) : Prop where
  shaped : Shaped medium wrapped s
  intact : s.Intact

/-- Without faults such a site is sound. -/
theorem Readable.sound (h : Readable medium wrapped s)
    (hquiet : ∀ volume ∈ s.volumes.values, volume.fault? = none) : Sound medium wrapped s := by
  intro number
  refine ⟨(h.shaped number).1, (h.shaped number).2, ?_, fun name => h.intact (number, name)⟩
  show ((s.volumes.get? number).getD default).fault? = none
  cases hget : s.volumes.get? number with
  | none => rfl
  | some u =>
    have hmem : (number, u) ∈ s.volumes.toList := (Dictionary.get?_eq_some_iff _ _ _).1 hget
    exact hquiet u (List.mem_map_of_mem hmem)

/-- Nothing but a write to a map on disk changes what is on disk. -/
theorem Intact.of_disk (h : s.Intact) {number : Nat} {u : Volume}
    (hdisk : u.disk = ((volume number).read s).disk) : Intact ((volume number).write u s) := by
  intro i
  have hsame : (diskMap i).read ((volume number).write u s) = (diskMap i).read s := by
    by_cases hi : i.1 = number
    · subst hi
      show (Volume.diskPlace i.2).read ((volume i.1).read _) = (Volume.diskPlace i.2).read _
      rw [(volume i.1).read_write]
      exact congrArg (fun d => (Dictionary.get? d i.2).getD .empty) hdisk
    · exact congrArg (Volume.diskPlace i.2).read ((volume_independent hi).read_of_write u s)
  rw [hsame]
  exact h i

theorem Intact.writeDisk (h : s.Intact) (i : MapId) {m : DiskMap} (hm : m.Intact) :
    Intact ((diskMap i).write m s) := by
  intro j
  by_cases hj : j = i
  · subst hj
    rw [(diskMap j).read_write]
    exact hm
  · rw [(diskMap_independent hj).read_of_write]
    exact h j

/-- No request damages a map on disk. -/
theorem map_keeps_intact (i : MapId) (r : Request) (now : Int64) :
    ((map medium wrapped i).perform r now).Keeps Intact := by
  refine map_keeps (fun s hs => ?_) fun t s hs => hs.of_disk rfl
  unfold bareMap
  cases medium i.1 with
  | memory | named => exact hs.of_disk rfl
  | disk =>
    obtain ⟨a, m, hok, hm⟩ := DiskMap.succeeds ("redb:" ++ i.2) r now _ (hs i)
    have hafter : ((DiskMap.backend ("redb:" ++ i.2)).perform r now ((diskMap i).read s)).2 = m := by
      rw [hok]
    exact hs.writeDisk i (hafter ▸ hm)

theorem openBare_eq {number : Nat} {name : String} {b : Backend Site} {t : Site}
    (h : openBare number name s = (.ok b, t)) :
    b = bareMap ((volume number).read s).medium (number, name) ∧ t = s := by
  unfold openBare at h
  obtain ⟨_, u, hcheck, hrest⟩ := Action.exists_of_bind_ok h
  have hu : u = s := by
    unfold checkOpen at hcheck
    split at hcheck
    · cases hcheck
    · exact (Prod.mk.inj hcheck).2.symm
  subst hu
  have hopen : (bareFactory ((volume number).read u).medium number).openMap name u = (.ok b, t) := hrest
  unfold bareMap
  cases hmedium : ((volume number).read u).medium with
  | memory | named =>
    rw [hmedium] at hopen
    cases hopen
    exact ⟨rfl, rfl⟩
  | disk =>
    rw [hmedium] at hopen
    simp only [bareFactory, DiskMap.factory] at hopen
    split at hopen <;> cases hopen
    exact ⟨rfl, rfl⟩

theorem openMap_eq {number : Nat} {name : String} {b : Backend Site} {t : Site}
    (h : openMap number name s = (.ok b, t)) :
    b = if ((volume number).read s).wrapped then
        wrap number name (bareMap ((volume number).read s).medium (number, name))
      else bareMap ((volume number).read s).medium (number, name) := by
  unfold openMap at h
  obtain ⟨bare, u, hbare, hrest⟩ := Action.exists_of_bind_ok h
  obtain ⟨rfl, rfl⟩ := openBare_eq hbare
  exact (Except.ok.inj (congrArg Prod.fst hrest)).symm

/-- Opening a map leaves the site as it is. -/
theorem openMap_keeps (holds : Site → Prop) (number : Nat) (name : String) :
    (openMap number name).Keeps holds := by
  have hcheck : (checkOpen number name).Keeps holds := by
    intro s hs
    unfold checkOpen
    split <;> exact hs
  have hlook : ∀ {α : Type} (f : Site → α),
      (Action.inspect f : Action Site StorageFailure α).Keeps holds := fun _ _ hs => hs
  have hbare : ∀ medium, ((bareFactory medium number).openMap name).Keeps holds := by
    intro medium
    cases medium with
    | memory | named => exact .pure _
    | disk =>
      intro s hs
      unfold bareFactory DiskMap.factory
      dsimp only
      split <;> exact hs
  refine .bind (.bind hcheck fun _ => .bind (hlook _) hbare) fun _ => ?_
  exact .bind (hlook _) fun _ => .pure _

/-- **The volumes of a site supply the maps of its vault**, whatever faults they have. -/
theorem supplies (medium : Nat → Medium) (wrapped : Nat → Bool) (s : Site) :
    (vault medium wrapped).Supplies (Shaped medium wrapped) (factory s) Prod.mk where
  opened {number name t b u} ht hopen := by
    obtain ⟨hmedium, hwrapped⟩ := ht number
    rw [openMap_eq hopen, hmedium, hwrapped]
    rfl
  apart heq := (Prod.mk.inj heq).2
  entries number name i t :=
    openMap_keeps (fun u => (vault medium wrapped).contents i u = (vault medium wrapped).contents i t)
      number name t rfl
  opening := openMap_keeps (Shaped medium wrapped)
  requests := map_keeps_shaped
  policies _ _ _ h := h
  issue _ h := h

/-- They do so while their maps on disk can be read, and keep that so. -/
theorem supplies_readable (medium : Nat → Medium) (wrapped : Nat → Bool) (s : Site) :
    (vault medium wrapped).Supplies (Readable medium wrapped) (factory s) Prod.mk where
  opened hs := (supplies medium wrapped s).opened hs.shaped
  apart := (supplies medium wrapped s).apart
  entries := (supplies medium wrapped s).entries
  opening := openMap_keeps _
  requests i r now t ht :=
    ⟨map_keeps_shaped i r now t ht.shaped, map_keeps_intact i r now t ht.intact⟩
  policies _ _ _ h := ⟨h.shaped, h.intact⟩
  issue _ h := ⟨h.shaped, h.intact⟩

end Site

end LayeredStore
