import LayeredStore.Proofs.Sessions

/-! # Empty maps

A map that holds nothing at all, not even an expired entry, holds nothing until a value is put
into it; and one that was torn down holds nothing (`Backend.Tidy`).  Unlike the live entries,
this does not depend on the time.  Maps in memory and on disk are tidy (`MemoryMap.tidy`,
`DiskMap.tidy`), and so are all maps of a site, behind gates that fail at will
(`Site.vault_tidy`).

So opening and upkeep of tidy maps fill none of them (`Vault.Tidy.supports`),
and a stack of tables that was torn down without a failure has empty maps
(`Vault.Lays.empty_of_teardown`).
-/
namespace LayeredStore

open ExpiringMap

/-! ### Tidy backends -/

/-- The request stores a value. -/
def Request.Stores : Request → Prop
  | .put _ _ _ => True
  | _ => False

namespace Backend

/-- An empty map stays empty until a value is stored in it, and teardown empties a map. -/
structure Tidy {σ : Type} (b : Backend σ) (contents : σ → ExpiringMap Bytes) : Prop where
  remains : ∀ {r : Request} (now : Int64), ¬ r.Stores →
    (b.perform r now).Keeps fun s => contents s = ExpiringMap.empty
  tornDown : ∀ {now : Int64} {s t : σ}, b.upkeep now .teardown s = (.ok (), t) →
    contents t = ExpiringMap.empty

namespace Tidy

variable {σ τ : Type} {contents : σ → ExpiringMap Bytes}

theorem within {b : Backend τ} {contents : τ → ExpiringMap Bytes} (h : b.Tidy contents)
    (p : Place σ τ) : (b.within p).Tidy fun s => contents (p.read s) where
  remains now hr s hs := by
    show contents (p.read (p.write _ s)) = _
    rw [p.read_write]
    exact h.remains now hr (p.read s) hs
  tornDown {now s t} hend := by
    obtain ⟨hok, rfl⟩ := Prod.mk.inj hend
    rw [p.read_write]
    exact h.tornDown (Prod.ext hok rfl)

variable {b : Backend σ} (h : b.Tidy contents)
include h

theorem guarded {gate : Request → σ → Option StorageFailure × σ}
    (hgate : ∀ r s, contents (gate r s).2 = contents s) : (b.guarded gate).Tidy contents where
  remains {r} now hr s hs := by
    have hsame := hgate r s
    simp only [Backend.guarded]
    rcases hg : gate r s with ⟨_ | failure, u⟩ <;> rw [hg] at hsame
    · exact h.remains now hr u (hsame.trans hs)
    · exact hsame.trans hs
  tornDown {now s t} hend := by
    simp only [Backend.upkeep, Backend.guarded] at hend
    split at hend
    · cases hend
    · exact h.tornDown hend

theorem metered {stats : Place σ Stats}
    (hstats : ∀ t s, contents (stats.write t s) = contents s) : (b.metered stats).Tidy contents where
  remains now hr s hs := (hstats _ _).trans (h.remains now hr s hs)
  tornDown {now s t} hend := by
    obtain ⟨hok, rfl⟩ := Prod.mk.inj hend
    exact (hstats _ _).trans (h.tornDown (Prod.ext hok rfl))

end Tidy

end Backend

/-! ### Maps in memory and on disk -/

theorem MemoryMap.eq_empty {m : MemoryMap} (h : contents m = ExpiringMap.empty) : m = .empty := by
  refine Dictionary.ext_get? fun key => ?_
  rw [Dictionary.get?_empty]
  exact Option.map_eq_none_iff.1 (congrFun h key)

/-- **Maps in memory are tidy.** -/
theorem MemoryMap.tidy (name : String) : (backend name).Tidy contents where
  remains {r} now hr m hm := by
    obtain rfl := eq_empty hm
    cases r with
    | put key value expiry => exact absurd trivial hr
    | get _ | remove _ | keys _ | expiry _ | setExpiry _ _ => rfl
    | upkeep verb => cases verb <;> rfl
  tornDown hend := by
    cases hend
    rfl

namespace DiskMap

variable {m m' : DiskMap}

/-- In an empty map no key has an entry, expired or not. -/
theorem live?_of_empty (h : contents m = ExpiringMap.empty) {now : Int64} {key : String}
    {e? : Option Entry} (hlive : m.live? now key = .ok e?) : e? = none := by
  have hnone := live?_contents hlive
  rw [h] at hnone
  exact Option.map_eq_none_iff.1 hnone.symm

/-- Where all raw bytes of an empty map can be read, there are none. -/
theorem decodeAll_of_empty (h : contents m = ExpiringMap.empty) {entries : List (String × Entry)}
    (hentries : decodeAll m.toList = .ok entries) : entries = [] := by
  refine List.eq_nil_iff_forall_not_mem.2 fun e he => ?_
  have hdecoded := (mem_decodeAll_toList hentries e.1 e.2).1 he
  have hnone := Option.map_eq_none_iff.1 (congrFun h e.1)
  rw [hdecoded] at hnone
  cases hnone

theorem transact_of_empty (h : contents m = ExpiringMap.empty) {r : Request} (hr : ¬ r.Stores)
    {now : Int64} {a : r.Answer} (hok : transact m now r = .ok (a, m')) :
    contents m' = ExpiringMap.empty := by
  cases r with
  | put key value expiry => exact absurd trivial hr
  | get key | expiry key | keys wanted? =>
    obtain ⟨_, -, hend⟩ := exists_of_map_ok hok
    cases hend
    exact h
  | remove key =>
    obtain ⟨e?, -, hend⟩ := exists_of_map_ok hok
    cases hend
    rw [contents_erase, h]
    exact Function.update_eq_self key _
  | setExpiry key expiry =>
    obtain ⟨e?, he, hend⟩ := exists_of_map_ok hok
    obtain rfl := live?_of_empty h he
    cases hend
    exact h
  | upkeep verb =>
    cases verb with
    | setup | incremental =>
      cases hok
      exact h
    | teardown | clear =>
      cases hok
      rfl
    | maintenance =>
      obtain ⟨entries, hentries, hend⟩ := exists_of_map_ok hok
      obtain rfl := decodeAll_of_empty h hentries
      cases hend
      exact h

/-- **Maps on disk are tidy**, damaged or not. -/
theorem tidy (name : String) : (backend name).Tidy contents where
  remains {r} now hr m hm := by
    show contents (perform r now m).2 = _
    unfold perform
    split
    · next a m' hok => exact transact_of_empty hm hr hok
    · exact hm
  tornDown hend := by
    cases hend
    rfl

end DiskMap

/-! ### The maps of a vault -/

/-- All maps are tidy. -/
def Vault.Tidy {σ ι : Type} [PolicyKeeper σ] (v : Vault σ ι) : Prop :=
  ∀ i, (v.backend i).Tidy (v.contents i)

/-- **The maps of a site are tidy**, whatever faults its volumes have. -/
theorem Site.vault_tidy (medium : Nat → Medium) (wrapped : Nat → Bool) :
    (vault medium wrapped).Tidy := by
  intro i
  have hbare : (bareMap (medium i.1) i).Tidy (bareContents (medium i.1) i) := by
    cases medium i.1 with
    | memory => exact (MemoryMap.tidy _).within (memoryMap i)
    | disk => exact (DiskMap.tidy _).within (diskMap i)
    | named => exact (MemoryMap.tidy _).within (memoryMap i)
  show (map medium wrapped i).Tidy _
  unfold map
  split
  · exact (hbare.guarded fun r s => congrArg _ (gate_snd i.1 i.2 r s)).metered
      (bareContents_counts (medium i.1) i i)
  · exact hbare

section

variable {σ κ ι : Type} [PolicyKeeper σ] {v : Vault σ ι} {shape : σ → Prop}
  {stores : κ → Factory σ} {place : κ → String → ι} {free : ι → Prop} {ks : List κ} {now : Int64}

/-- The state has its shape, and only the free maps hold entries. -/
abbrev Vault.EmptyOutside (v : Vault σ ι) (shape : σ → Prop) (free : ι → Prop) : σ → Prop :=
  v.Confined shape free fun _ => ExpiringMap.empty

namespace Vault.Tidy

variable (htidy : v.Tidy)
include htidy

/-- A map that is empty stays so until a value is stored in it. -/
theorem remains (i j : ι) {r : Request} (hr : ¬ r.Stores) (now : Int64) :
    ((v.backend j).perform r now).Keeps fun s => v.contents i s = ExpiringMap.empty := by
  by_cases hij : j = i
  · subst hij
    exact (htidy j).remains now hr
  · intro s hs
    exact (v.others hij r now s).trans hs

/-- Requests that store nothing fill no map. -/
theorem keepsOn (hstores : v.Supplies shape stores place) (j : ι) (now : Int64) :
    (v.backend j).KeepsOn now (¬ ·.Stores) (v.EmptyOutside shape free) := by
  intro r hr s hs
  exact ⟨hstores.requests j r now s hs.shape, fun i hi => htidy.remains i j hr now s (hs.same i hi)⟩

end Vault.Tidy

/-! ### Catalogs on tidy maps -/

/-- A handle works on the maps of its name, a table on those of its fields only. -/
def Vault.Lodges (v : Vault σ ι) (place : κ → String → ι) (ks : List κ) : Handle σ → Prop
  | .table o => v.Lays place ks o
  | .map m => v.Houses place (.map m)

/-- The maps that a handle may fill: the index and the columns of a table, or those of a map. -/
def Handle.Fills (place : κ → String → ι) : Handle σ → ι → Prop
  | .table o, i => ∃ k, ∃ f ∈ idField :: o.schema.fields.keys,
      i = place k (mapName o.schema.table f)
  | .map m, i => (Resident.map (Catalog.key m.name)).Reaches place i

theorem Vault.Lodges.houses {h : Handle σ} (hh : v.Lodges place ks h) : v.Houses place h := by
  cases h with
  | table o => exact Vault.Lays.houses hh
  | map m => exact hh

theorem Vault.Lodges.builtOn {h : Handle σ} (hh : v.Lodges place ks h) :
    h.BuiltOn fun b => ∃ i, h.Fills place i ∧ b = v.backend i := by
  cases h with
  | table o =>
    refine (Vault.Lays.builtOn hh).mono ?_
    rintro b ⟨k, -, f, hf, rfl⟩
    exact ⟨_, ⟨k, f, hf, rfl⟩, rfl⟩
  | map m => exact hh

/-- The maps that a handle fills are of its resident. -/
theorem Vault.Lodges.reaches {h : Handle σ} (hh : v.Lodges place ks h) {i : ι}
    (hi : h.Fills place i) : h.resident.Reaches place i := by
  cases h with
  | table o =>
    obtain ⟨k, f, -, rfl⟩ := hi
    exact ⟨k, _, ⟨o.schema.table, f, Vault.Lays.name hh, rfl, rfl⟩, rfl⟩
  | map m => exact hi

/-- **Opening and upkeep fill no map**, whatever event they belong to. -/
theorem Vault.Tidy.supports (htidy : v.Tidy) (hstores : v.Supplies shape stores place)
    (now : Int64) (through? : Option Resident) :
    Catalog.Supports now (ks.map stores) (v.Lodges place ks) (v.EmptyOutside shape free) through? where
  issue _ := hstores.issue_confined
  policies := hstores.policy_confined
  tables schema settings := hstores.openStack_delivers schema.named settings
  maps hname := hstores.openLayers_delivers ks hname
  upkeep hh _ verb := by
    refine Handle.upkeep_keeps (hh.houses.mono ?_) hstores.policy_confined verb
    rintro b ⟨i, -, rfl⟩ verb
    exact htidy.keepsOn hstores i now _ id

/-- A request to a handle fills only maps that are the handle's to fill. -/
theorem Vault.Supplies.carryOut_emptyOutside (hstores : v.Supplies shape stores place)
    {h : Handle σ} (hh : v.Lodges place ks h) (hfree : ∀ i, h.Fills place i → free i)
    (r : HandleRequest) : (h.carryOut now r).Keeps (v.EmptyOutside shape free) := by
  refine Handle.carryOut_keeps (hh.builtOn.mono ?_) hstores.policy_confined r
  rintro b ⟨i, hi, rfl⟩
  exact hstores.keepsOn (hfree i hi) now

/-! ### Teardown -/

omit [PolicyKeeper σ] in
/-- What a member has done is done after all of them, if none undoes it. -/
theorem attemptEach_done {α β : Type} {act : β → Action σ StoreError α} {members : List β} {s : σ}
    (hok : ∀ outcome ∈ (attemptEach act members s).1, ∃ a, outcome = .ok a) {m : β} (hm : m ∈ members)
    {done : σ → Prop} (hdone : ∀ {u a w}, act m u = (.ok a, w) → done w)
    (hkeeps : ∀ n ∈ members, (act n).Keeps done) : done (attemptEach act members s).2 := by
  induction members generalizing s with
  | nil => cases hm
  | cons n rest ih =>
    rcases List.mem_cons.1 hm with rfl | hm
    · -- The member is the first: the others keep what it has done.
      obtain ⟨a, ha⟩ := hok (act m s).1 List.mem_cons_self
      exact attemptEach_keeps (fun n hn => hkeeps n (List.mem_cons_of_mem m hn))
        (hdone (Prod.ext ha rfl))
    · exact ih (fun outcome ho => hok outcome (List.mem_cons_of_mem _ ho)) hm
        fun n' hn => hkeeps n' (List.mem_cons_of_mem n hn)

omit [PolicyKeeper σ] in
/-- Upkeep that does not fail has been done on every member. -/
theorem Member.upkeepAll_done {members : List (Member σ)} {verb : Upkeep} {s t : σ}
    (h : Member.upkeepAll members verb now s = (.ok (), t)) {m : Member σ} (hm : m ∈ members)
    {done : σ → Prop} (hdone : ∀ {u w}, m.upkeep verb now u = (.ok (), w) → done w)
    (hkeeps : ∀ n ∈ members, (n.upkeep verb now).Keeps done) : done t := by
  obtain ⟨results, u, hfan, hend⟩ := Action.exists_of_bind_ok h
  cases hend
  rcases fanOut_apply verb.name Member.label (fun m => m.upkeep verb now) members s with
    ⟨results', hresults, hok⟩ | ⟨e, herror⟩
  · rw [hok] at hfan
    cases hfan
    refine attemptEach_done (fun outcome ho => ?_) hm hdone hkeeps
    rw [hresults] at ho
    obtain ⟨a, -, rfl⟩ := List.mem_map.1 ho
    exact ⟨a, rfl⟩
  · rw [herror] at hfan
    cases hfan

/-- The maps of a table are empty when it was torn down without a failure. -/
theorem Table.empty_of_teardown (htidy : v.Tidy) {t : Table σ} {maps : Table.Maps ι}
    (ht : t.LaidOn v.backend maps) {s u : σ} (h : t.upkeep now .teardown s = (.ok (), u)) {i : ι}
    (hi : i ∈ maps.places t.schema.fields.keys) : v.contents i u = ExpiringMap.empty := by
  have hmember : Member.ofBackend (v.backend i) ∈ t.maps.map Member.ofBackend := by
    rw [ht.maps_eq]
    exact List.mem_map_of_mem (List.mem_map_of_mem hi)
  refine Member.upkeepAll_done h hmember
    (fun hend => (htidy i).tornDown (Action.ok_of_mapError hend)) fun n hn => ?_
  rw [ht.maps_eq, List.map_map] at hn
  obtain ⟨j, -, rfl⟩ := List.mem_map.1 hn
  exact (htidy.remains i j id now).mapError _

/-- **The maps of a stack of tables are empty** when it was torn down without a failure. -/
theorem Vault.Lays.empty_of_teardown (htidy : v.Tidy) {o : TableStack σ} (ho : v.Lays place ks o)
    {s u : σ} (h : o.stack.upkeep now .teardown s = (.ok (), u)) {k : κ} (hk : k ∈ ks) {f : String}
    (hf : f ∈ idField :: o.schema.fields.keys) :
    v.contents (place k (mapName o.schema.table f)) u = ExpiringMap.empty := by
  obtain ⟨t, ht, hlaid⟩ := ho.stores k hk
  have hplace : place k (mapName o.schema.table f) ∈
      (Table.Maps.named place k o.schema.table).places t.schema.fields.keys := by
    rw [(ho.tables t ht).1]
    exact Table.Maps.mem_named hf
  have hmember : t.layer.member ∈ o.stack.layers.map Layer.member := by
    rw [ho.composed.layers]
    exact List.mem_map_of_mem (List.mem_map_of_mem ht)
  refine Member.upkeepAll_done h hmember
    (fun hend => Table.empty_of_teardown htidy hlaid hend hplace) fun n hn => ?_
  rw [ho.composed.layers, List.map_map] at hn
  obtain ⟨t', ht', rfl⟩ := List.mem_map.1 hn
  obtain ⟨k', -, hlaid'⟩ := (ho.tables t' ht').2
  have hmaps : ∀ b ∈ t'.maps, b.KeepsOn now (¬ ·.Stores)
      fun s => v.contents (place k (mapName o.schema.table f)) s = ExpiringMap.empty := by
    rw [hlaid'.maps_eq]
    rintro b hb r hr
    obtain ⟨j, -, rfl⟩ := List.mem_map.1 hb
    exact htidy.remains _ j hr now
  exact Table.upkeep_keeps hmaps id

end

end LayeredStore
