import LayeredStore.Proofs.Residents
import LayeredStore.Proofs.TableTiers

/-! # Vacant tables

A stack of tables that has been put together on stores may be read where nothing fails: no layer
of it has a key, and no identifier a record, just when no map of its index or of its columns
holds a live entry (`Vault.Lays.vacant_iff`).
-/
namespace LayeredStore

open ExpiringMap

/-- No layer has a key, and no identifier has a record, neither in a layer nor in the stack. -/
structure TableStack.Vacant {σ : Type} (o : TableStack σ) (time : Int64) (s : σ) : Prop where
  keys : ∀ t ∈ o.tables, (t.keys time s).1 = .ok .empty
  tables : ∀ t ∈ o.tables, ∀ id, (t.get time id s).1 = .ok none
  stack : ∀ id, (o.get time id s).1 = .ok none

/-- Where no layer has an identifier, the search finds none. -/
theorem searchFrom_none {σ V : Type} {layers : List (Layer σ V)} {now : Int64} {id : String}
    {holds : σ → Prop}
    (hfetch : ∀ l ∈ layers, ∀ s, holds s → ∃ t, l.fetch now id s = (.ok none, t) ∧ holds t)
    (place : Nat) {s : σ} (hs : holds s) :
    ∃ t, searchFrom now id place layers s = (([], none), t) := by
  induction layers generalizing place s with
  | nil => exact ⟨s, rfl⟩
  | cons l rest ih =>
    obtain ⟨t, ht, hholds⟩ := hfetch l List.mem_cons_self s hs
    obtain ⟨u, hu⟩ := ih (fun m hm => hfetch m (List.mem_cons_of_mem l hm)) (place + 1) hholds
    refine ⟨u, ?_⟩
    rw [searchFrom, ht]
    exact hu

section

variable {σ κ ι : Type} [PolicyKeeper σ] [DecidableEq ι] {v : Vault σ ι} {sound : σ → Prop}
  (hv : v.Reliable sound) {time : Int64} {s : σ} {m : ι → ExpiringMap Bytes}
include hv

section

variable {t : Table σ} {maps : Table.Maps ι} (ht : t.LaidOn v.backend maps)
  (h : v.Has sound time s m)
include ht h

/-- A table without live cells answers so. -/
theorem Table.LaidOn.reads_none (hnone : ∀ i ∈ maps.places t.schema.fields.keys, ∀ id,
    (m i).live? time id = none) (id : String) :
    (∃ u, t.layer.fetch time id s = (.ok none, u) ∧ v.Has sound time u m) ∧
      (t.get time id s).1 = .ok none := by
  have hview : (maps.cells m time id).view t.schema.fields.keys id = some none :=
    Table.Cells.view_none (hnone _ List.mem_cons_self id)
      (fun _ hf => hnone _ (List.mem_cons_of_mem _ (List.mem_map_of_mem hf)) id) id
  have hlaid : t.LaidOn (v.refusing fun _ => none).backend maps := by
    rwa [v.backend_refusing_none]
  have hfetch := Table.getWithExpiry_yields hv (fun _ => none) hlaid h id
  have hget := Table.get_yields hv (fun _ => none) hlaid h id
  rw [hview] at hfetch hget
  obtain ⟨u, hu, -⟩ := hget.ok
  exact ⟨hfetch.ok, congrArg Prod.fst hu⟩

/-- A table has no keys just when it has no live cells. -/
theorem Table.LaidOn.keys_empty_iff : (t.keys time s).1 = .ok .empty ↔
    ∀ i ∈ maps.places t.schema.fields.keys, ∀ id, (m i).live? time id = none := by
  obtain ⟨keys, u, hkeys, -, hcontains⟩ := Layout.laidOn_keys_ok hv ht h
  rw [hkeys]
  constructor
  · intro hempty i hi id
    obtain rfl := Except.ok.inj hempty
    by_contra hlive
    have hkey := (hcontains id).2 ⟨i, hi, Option.isSome_iff_ne_none.2 hlive⟩
    cases hkey
  · intro hnone
    refine congrArg Except.ok (Dictionary.ext_get? fun id => ?_)
    rw [Dictionary.get?_empty]
    by_contra hsome
    obtain ⟨i, hi, hlive⟩ := (hcontains id).1 (Option.isSome_iff_ne_none.2 hsome)
    rw [hnone i hi id] at hlive
    cases hlive

end

/-- **A stack of tables is vacant** just when its index and its columns hold nothing live. -/
theorem Vault.Lays.vacant_iff {place : κ → String → ι} {ks : List κ} {o : TableStack σ}
    (ho : v.Lays place ks o) (hs : sound s) :
    o.Vacant time s ↔ ∀ k ∈ ks, ∀ f ∈ idField :: o.schema.fields.keys, ∀ id,
      (v.contents (place k (mapName o.schema.table f)) s).live? time id = none := by
  have hhas : v.Has sound time s fun i => v.contents i s := ⟨hs, fun i => .refl time _⟩
  constructor
  · intro hvacant k hk f hf
    obtain ⟨t, ht, hlaid⟩ := ho.stores k hk
    have hplaces := (hlaid.keys_empty_iff hv hhas).1 (hvacant.keys t ht)
    rw [(ho.tables t ht).1] at hplaces
    exact hplaces _ (Table.Maps.mem_named hf)
  · intro hnone
    have hplaces : ∀ t ∈ o.tables, ∃ maps : Table.Maps ι, t.LaidOn v.backend maps ∧
        ∀ i ∈ maps.places t.schema.fields.keys, ∀ id, (v.contents i s).live? time id = none := by
      intro t ht
      obtain ⟨hschema, k, hk, hlaid⟩ := ho.tables t ht
      refine ⟨_, hlaid, fun i hi => ?_⟩
      rw [hschema] at hi
      obtain ⟨f, hf, rfl⟩ := Table.Maps.exists_of_mem_named hi
      exact hnone k hk f hf
    refine ⟨fun t ht => ?_, fun t ht id => ?_, fun id => ?_⟩
    · obtain ⟨maps, hlaid, hcells⟩ := hplaces t ht
      exact (hlaid.keys_empty_iff hv hhas).2 hcells
    · obtain ⟨maps, hlaid, hcells⟩ := hplaces t ht
      exact (hlaid.reads_none hv hhas hcells id).2
    · have hfetch : ∀ l ∈ o.stack.layers, ∀ u, (v.Has sound time u fun i => v.contents i s) →
          ∃ w, l.fetch time id u = (.ok none, w) ∧ v.Has sound time w fun i => v.contents i s := by
        intro l hl u hu
        rw [ho.composed.layers] at hl
        obtain ⟨t, ht, rfl⟩ := List.mem_map.1 hl
        obtain ⟨maps, hlaid, hcells⟩ := hplaces t ht
        exact (hlaid.reads_none hv hu hcells id).1
      obtain ⟨u, hu⟩ := searchFrom_none hfetch 0 hhas
      show (o.stack.read time id s).1 = _
      rw [Stack.read, hu]

end

end LayeredStore
