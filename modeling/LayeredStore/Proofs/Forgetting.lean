import LayeredStore.Proofs.OneMap
import LayeredStore.Proofs.SiteVault

/-! # What upper tables forget

Tables other than the lowest may lose records, one by one or all of them, and the tables
still mirror the map that they mirrored (`Layout.forgets_mirrors`).  A restart of a site
whose lowest volume is on disk is such a loss (`Site.restart_forgets`).
-/
namespace LayeredStore

open ExpiringMap

namespace Layout

variable {σ κ ι : Type} [PolicyKeeper σ] {L : Layout κ ι} {v : Vault σ ι} {sound : σ → Prop}
  {ks : List κ} {lowest : κ} {now : Int64} {s t : σ} {map : RecordMap}

/-! ### Mirrors of a map -/

namespace Mirrors

theorem sound_state (h : L.Mirrors v sound ks lowest now s map) : sound s := by
  obtain ⟨m, ⟨raw, hraw, -⟩, -⟩ := h
  exact hraw.sound

/-- Only the contents of the maps matter. -/
theorem of_contents (h : L.Mirrors v sound ks lowest now s map) (hsound : sound t)
    (hcontents : ∀ i, v.contents i t = v.contents i s) :
    L.Mirrors v sound ks lowest now t map := by
  obtain ⟨m, ⟨raw, hraw, hmeans⟩, hcaches⟩ := h
  refine ⟨m, ⟨raw, ⟨hsound, fun i => ?_⟩, hmeans⟩, hcaches⟩
  rw [hcontents i]
  exact hraw.holds i

/-- Empty tables mirror the map without records. -/
theorem empty (hsound : sound s)
    (hempty : ∀ k, ∀ i ∈ (L.maps k).places L.fields, v.contents i s = ExpiringMap.empty) :
    L.Mirrors v sound ks lowest now s .empty := by
  have hcells : ∀ k id, Table.Cells.Alike L.fields (L.cells (fun i => v.contents i s) now id k)
      (.of none) := by
    intro k id
    refine ⟨?_, fun f hf => ?_⟩
    · show (v.contents (L.maps k).index s).live? now id = none
      rw [hempty k _ List.mem_cons_self]
      rfl
    · show (v.contents ((L.maps k).column f) s).live? now id = none
      rw [hempty k _ (List.mem_cons_of_mem _ (List.mem_map_of_mem hf))]
      rfl
  exact ⟨fun _ => .empty, ⟨fun i => v.contents i s, ⟨hsound, fun i => .refl now _⟩,
    hcells, fun k id e he => nomatch he⟩, fun key => ⟨rfl, fun k _ => .inl rfl⟩⟩

end Mirrors

/-! ### Losses of upper tables -/

/-- The maps without what some of them have lost. -/
def without (m : κ → ExpiringMap Record) (lost : κ → String → Prop)
    [∀ k id, Decidable (lost k id)] : κ → ExpiringMap Record :=
  fun k id => if lost k id then none else m k id

section

variable {m : κ → ExpiringMap Record} {lost : κ → String → Prop} [∀ k id, Decidable (lost k id)]

theorem live?_without (k : κ) (id : String) :
    (without m lost k).live? now id = if lost k id then none else (m k).live? now id := by
  unfold live? without
  split <;> rfl

/-- Tables that have lost all cells of some identifiers have lost their records. -/
theorem Means.without {raw raw' : ι → ExpiringMap Bytes} (h : L.Means now raw m)
    (hlost : ∀ k id, lost k id → ∀ i ∈ (L.maps k).places L.fields, (raw' i).live? now id = none)
    (hkept : ∀ k id, ¬lost k id → ∀ i ∈ (L.maps k).places L.fields,
      (raw' i).live? now id = (raw i).live? now id) :
    L.Means now raw' (without m lost) := by
  have hindex : ∀ k, (L.maps k).index ∈ (L.maps k).places L.fields := fun k => List.mem_cons_self
  have hcolumn : ∀ k, ∀ f ∈ L.fields, (L.maps k).column f ∈ (L.maps k).places L.fields :=
    fun k f hf => List.mem_cons_of_mem _ (List.mem_map_of_mem hf)
  refine ⟨fun k id => ?_, fun k id e he => ?_⟩
  · rw [live?_without]
    by_cases hk : lost k id
    · rw [if_pos hk]
      exact ⟨hlost k id hk _ (hindex k), fun f hf => hlost k id hk _ (hcolumn k f hf)⟩
    · rw [if_neg hk]
      have hsame : Table.Cells.Alike L.fields (L.cells raw' now id k) (L.cells raw now id k) :=
        ⟨hkept k id hk _ (hindex k), fun f hf => hkept k id hk _ (hcolumn k f hf)⟩
      exact hsame.trans (h.cells k id)
  · rw [live?_without] at he
    split at he
    · cases he
    · exact h.fits k id e he

end

/-- A change after which tables have the cells of every identifier that they had, or, other
than the lowest, none of them. -/
def Forgets (L : Layout κ ι) (v : Vault σ ι) (sound : σ → Prop) (lowest : κ) (change : σ → σ) :
    Prop :=
  ∀ s, sound s → sound (change s) ∧ ∀ k id,
    (∀ i ∈ (L.maps k).places L.fields, v.contents i (change s) id = v.contents i s id) ∨
      k ≠ lowest ∧ ∀ i ∈ (L.maps k).places L.fields, v.contents i (change s) id = none

/-- **Upper tables may forget.** -/
theorem forgets_mirrors {change : σ → σ} (hforgets : L.Forgets v sound lowest change)
    (h : L.Mirrors v sound ks lowest now s map) :
    L.Mirrors v sound ks lowest now (change s) map := by
  classical
  obtain ⟨m, ⟨raw, hraw, hmeans⟩, hcaches⟩ := h
  obtain ⟨hsound, hforgets⟩ := hforgets s hraw.sound
  let lost (k : κ) (id : String) : Prop :=
    k ≠ lowest ∧ ∀ i ∈ (L.maps k).places L.fields, v.contents i (change s) id = none
  have hlost : ∀ k id, lost k id → ∀ i ∈ (L.maps k).places L.fields,
      (v.contents i (change s)).live? now id = none := by
    intro k id hk i hi
    rw [live?, hk.2 i hi]
    rfl
  have hkept : ∀ k id, ¬lost k id → ∀ i ∈ (L.maps k).places L.fields,
      (v.contents i (change s)).live? now id = (raw i).live? now id := by
    intro k id hk i hi
    rw [← hraw.holds i id, live?, (hforgets k id).resolve_right hk i hi]
    rfl
  refine ⟨_, ⟨_, ⟨hsound, fun i => .refl now _⟩, hmeans.without hlost hkept⟩, fun key => ?_⟩
  refine (hcaches key).forgets ?_ fun k _ => ?_
  · rw [live?_without, if_neg fun hk : lost lowest key => hk.1 rfl]
  · rw [live?_without]
    split
    · exact .inl rfl
    · exact .inr rfl

/-- A table other than the lowest may lose entries. -/
theorem mirrors_of_update [DecidableEq κ] {k : κ} (hk : k ≠ lowest) {m : κ → ExpiringMap Record}
    {x : ExpiringMap Record} (hcaches : ∀ key, Caches now ks lowest m map.expiring key)
    (hx : ∀ key, x.live? now key = none ∨ x.live? now key = (m k).live? now key)
    (h : L.Holds v sound now s (Function.update m k x)) :
    L.Mirrors v sound ks lowest now s map := by
  refine ⟨_, h, fun key => (hcaches key).forgets ?_ fun l _ => ?_⟩
  · rw [Function.update_of_ne (Ne.symm hk)]
  · by_cases hl : l = k
    · subst hl
      rw [Function.update_self]
      exact hx key
    · rw [Function.update_of_ne hl]
      exact .inr rfl

variable [DecidableEq ι] [DecidableEq κ] (hv : v.Reliable sound)
include hv

theorem clear_mirrors (h : L.Mirrors v sound ks lowest now s map) {k : κ} (hk : k ≠ lowest) :
    ∃ t, (L.table v.backend k).upkeep now .clear s = (.ok (), t) ∧
      L.Mirrors v sound ks lowest now t map := by
  obtain ⟨m, hm, hcaches⟩ := h
  obtain ⟨t, ht, hholds⟩ := upkeep_ok hv hm k .clear
  exact ⟨t, ht, mirrors_of_update hk hcaches (fun key => .inl rfl) hholds⟩

theorem discard_mirrors (h : L.Mirrors v sound ks lowest now s map) {k : κ} (hk : k ≠ lowest)
    (id : String) :
    ∃ found t, (L.table v.backend k).remove now id s = (.ok found, t) ∧
      L.Mirrors v sound ks lowest now t map := by
  obtain ⟨m, hm, hcaches⟩ := h
  obtain ⟨t, ht, hholds⟩ := discard_ok hv hm k id
  refine ⟨_, t, ht, mirrors_of_update hk hcaches (fun key => ?_) hholds⟩
  rw [live?_set]
  split
  · exact .inl rfl
  · exact .inr rfl

end Layout

/-! ### Restarts of a site -/

namespace Site

theorem read_volume_restart (number : Nat) (s : Site) :
    (volume number).read (restart [] s) = ((volume number).read s).restarted := by
  show ((s.volumes.map Volume.restarted).get? number).getD default = _
  rw [Dictionary.get?_map]
  show _ = Volume.restarted ((s.volumes.get? number).getD default)
  cases s.volumes.get? number <;> rfl

theorem Sound.restart {medium : Nat → Medium} {wrapped : Nat → Bool} {s : Site}
    (h : Sound medium wrapped s) : Sound medium wrapped (restart [] s) := by
  intro number
  rw [read_volume_restart]
  exact ⟨(h number).medium, (h number).wrapped, rfl, (h number).intact⟩

/-- A restart keeps what is on disk and loses the rest. -/
theorem bareContents_restart (medium : Medium) (i : MapId) (s : Site) :
    bareContents medium i (restart [] s) =
      if medium = .disk then bareContents medium i s else ExpiringMap.empty := by
  cases medium <;>
    simp [bareContents, memoryMap, diskMap, Place.inside, read_volume_restart, Volume.restarted,
      Volume.memoryPlace, Volume.diskPlace, Volume.new]

/-- **A restart makes tables forget that are not on disk.** -/
theorem restart_forgets {κ : Type} {L : Layout κ MapId} (number : κ → Nat)
    (hnumber : ∀ k, ∀ i ∈ (L.maps k).places L.fields, i.1 = number k) {medium : Nat → Medium}
    {wrapped : Nat → Bool} {lowest : κ} (hdisk : medium (number lowest) = .disk) :
    L.Forgets (vault medium wrapped) (Sound medium wrapped) lowest (restart []) := by
  intro s hs
  refine ⟨hs.restart, fun k id => ?_⟩
  have hcontents : ∀ i ∈ (L.maps k).places L.fields,
      (vault medium wrapped).contents i (restart [] s) =
        if medium (number k) = .disk then (vault medium wrapped).contents i s
        else ExpiringMap.empty := by
    intro i hi
    rw [← hnumber k i hi]
    exact bareContents_restart _ i s
  by_cases hk : medium (number k) = .disk
  · left
    intro i hi
    rw [hcontents i hi, if_pos hk]
  · right
    refine ⟨fun heq => hk (heq ▸ hdisk), fun i hi => ?_⟩
    rw [hcontents i hi, if_neg hk]
    rfl

end Site

end LayeredStore
