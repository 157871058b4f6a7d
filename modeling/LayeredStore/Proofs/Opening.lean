import LayeredStore.Proofs.OneMap
import LayeredStore.Proofs.SiteVault

/-! # Opening a stack of tables

Stores hand out backends of a vault (`Vault.OpenedBy`), and while nothing fails a stack of
tables is opened on them without any change of what the maps hold
(`Vault.OpenedBy.openStack_ok`).  Volumes of a site are such stores (`Site.openedBy`).
-/
namespace LayeredStore

theorem Stack.compose_ok {σ V : Type} [PolicyKeeper σ] {settings : Settings}
    (hsettings : settings.validate = .ok ()) (name : String) {layers : List (Layer σ V)}
    (hlayers : layers ≠ []) (s : σ) :
    Stack.compose name layers settings s =
      (.ok ⟨name, layers, settings.lifespan, (PolicyKeeper.enrol settings s).1⟩,
        (PolicyKeeper.enrol settings s).2) := by
  obtain ⟨first, rest, rfl⟩ := List.exists_cons_of_ne_nil hlayers
  unfold Stack.compose
  rw [hsettings]
  rfl

/-- Tables of one layout are put together; the last one answers queries. -/
theorem Layout.ofTables_ok {σ κ ι : Type} [PolicyKeeper σ] (L : Layout κ ι) (b : ι → Backend σ)
    {settings : Settings} (hsettings : settings.validate = .ok ())
    (hquery : settings.queryLayer = .lowest) (hlifespan : L.lifespan = settings.lifespan)
    (uppers : List κ) (lowest : κ) (s : σ) :
    TableStack.ofTables ((uppers ++ [lowest]).map (L.table b)) settings s =
      (.ok (L.stack b (uppers ++ [lowest]) lowest (PolicyKeeper.enrol settings s).1),
        (PolicyKeeper.enrol settings s).2) := by
  obtain ⟨first, rest, hks⟩ : ∃ first rest, uppers ++ [lowest] = first :: rest := by
    cases uppers with
    | nil => exact ⟨lowest, [], rfl⟩
    | cons k uppers => exact ⟨k, uppers ++ [lowest], rfl⟩
  have hsame : (rest.map (L.table b)).find? (fun t => t.schema != (L.table b first).schema) =
      none := by
    rw [List.find?_eq_none]
    intro t ht
    obtain ⟨k, -, rfl⟩ := List.mem_map.1 ht
    simp [Layout.table]
  have hlayers : ((uppers ++ [lowest]).map (L.table b)).map Table.layer ≠ [] := by simp
  have hanswering : ((uppers ++ [lowest]).map (L.table b)).getD
      (settings.queryLayer.index ((uppers ++ [lowest]).map (L.table b)).length) (L.table b first) =
      L.table b lowest := by
    rw [hquery]
    simp [QueryLayer.index, List.getD_eq_getElem?_getD]
  have hcompose := Stack.compose_ok hsettings L.schema.table hlayers s
  rw [hks, List.map_cons] at *
  unfold TableStack.ofTables
  simp only [hsame]
  refine (Action.bind_ok hcompose _).trans ?_
  rw [hanswering, ← List.map_cons, List.map_map, ← hlifespan]
  rfl

section

variable {σ κ ι : Type} [PolicyKeeper σ] {v : Vault σ ι} {sound : σ → Prop}
  {stores : κ → Factory σ} {place : κ → String → ι} {s : σ}

/-- Stores open the backends of a vault, each name of each store one of its own. -/
structure Vault.OpenedBy (v : Vault σ ι) (sound : σ → Prop) (stores : κ → Factory σ)
    (place : κ → String → ι) : Prop where
  /-- A name is opened without a change. -/
  opens : ∀ {s : σ} {name : String} (k : κ), sound s → name.isEmpty = false →
    (stores k).openMap name s = (.ok (v.backend (place k name)), s)
  /-- No two names are one map. -/
  apart : ∀ {k l a b}, place k a = place l b → k = l ∧ a = b

/-- The layout of the tables that stores open. -/
def Vault.OpenedBy.layout (h : v.OpenedBy sound stores place) (schema : Schema)
    (lifespan : UInt64) : Layout κ ι :=
  .named schema lifespan (fun k => (stores k).name ++ ":" ++ schema.table) place h.apart

theorem isEmpty_mapName (table suffix : String) : (mapName table suffix).isEmpty = false := by
  rw [Bool.eq_false_iff, ne_eq, String.isEmpty_iff]
  intro hempty
  have hchars := congrArg String.toList hempty
  simp [mapName] at hchars

variable (hstores : v.OpenedBy sound stores place) (schema : Schema)

namespace Vault.OpenedBy

include hstores

theorem openMaps_ok (hsound : sound s) (k : κ) (names : List String) :
    Table.openMaps (stores k) schema.table names s =
      (.ok (names.map fun f => (f, v.backend (place k (mapName schema.table f)))), s) := by
  induction names with
  | nil => rfl
  | cons name rest ih =>
    have hopen : ((stores k).openMap (mapName schema.table name)).mapError StoreError.storage s =
        (.ok (v.backend (place k (mapName schema.table name))), s) :=
      Action.mapError_ok (hstores.opens k hsound (isEmpty_mapName _ _)) _
    rw [Table.openMaps, Action.bind_ok hopen, Action.bind_ok ih]
    rfl

theorem openOn_ok (hsound : sound s) (k : κ) (lifespan : UInt64) :
    Table.openOn (stores k) schema lifespan s =
      (.ok ((hstores.layout schema lifespan).table v.backend k), s) := by
  have hopen : ((stores k).openMap (mapName schema.table idField)).mapError StoreError.storage s =
      (.ok (v.backend (place k (mapName schema.table idField))), s) :=
    Action.mapError_ok (hstores.opens k hsound (isEmpty_mapName _ _)) _
  rw [Table.openOn, Action.bind_ok hopen, Action.bind_ok (hstores.openMaps_ok schema hsound k _)]
  rfl

theorem openTables_ok (hsound : sound s) (ks : List κ) (settings : Settings) :
    TableStack.openTables schema settings (ks.map stores) s =
      (.ok (ks.map ((hstores.layout schema settings.lifespan).table v.backend)), s) := by
  induction ks with
  | nil => rfl
  | cons k rest ih =>
    rw [List.map_cons, TableStack.openTables,
      Action.bind_ok (hstores.openOn_ok schema hsound k settings.lifespan), Action.bind_ok ih]
    rfl

/-- **A stack is opened on its stores**, the lowest of its tables answering queries. -/
theorem openStack_ok (hsound : sound s) (hv : v.Reliable sound) {settings : Settings}
    (hsettings : settings.validate = .ok ()) (hquery : settings.queryLayer = .lowest)
    (uppers : List κ) (lowest : κ) :
    ∃ ticket t, TableStack.openOn schema ((uppers ++ [lowest]).map stores) settings s =
        (.ok ((hstores.layout schema settings.lifespan).stack v.backend (uppers ++ [lowest])
          lowest ticket), t) ∧
      sound t ∧ ∀ i, v.contents i t = v.contents i s := by
  have htables := hstores.openTables_ok schema hsound (uppers ++ [lowest]) settings
  have hstack := (hstores.layout schema settings.lifespan).ofTables_ok v.backend hsettings hquery
    rfl uppers lowest s
  refine ⟨_, _, (Action.bind_ok htables _).trans hstack, ?_, fun i => ?_⟩
  · exact hv.policies _ _ _ (hv.issue s hsound)
  · rw [PolicyKeeper.enrol, v.policies, v.issue]

end Vault.OpenedBy

end

/-- The volumes of a site open the backends of its vault. -/
theorem Site.openedBy {κ : Type} (medium : Nat → Medium) (wrapped : Nat → Bool) (s : Site)
    (number : κ → Nat) (hnumber : ∀ {k l}, number k = number l → k = l) :
    (vault medium wrapped).OpenedBy (Sound medium wrapped) (fun k => factory s (number k))
      fun k name => (number k, name) where
  opens k hs hname := hs.openMap (number k) hname
  apart heq := ⟨hnumber (congrArg Prod.fst heq), congrArg Prod.snd heq⟩

end LayeredStore
