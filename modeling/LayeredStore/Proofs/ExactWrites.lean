import LayeredStore.Proofs.SiteVault

/-! # Writes to the letter

Most of what is said about backends is said of live entries.  A put or a deletion can be told
apart more finely: if it is answered, the entry of its key is the new one, or there is none,
and if it fails nothing has changed, expired entries included
(`Backend.WritesExactly`).  Maps in memory and on disk write exactly, and so do all maps of a
site, behind gates that fail at will (`Site.vault_writesExactly`).
-/
namespace LayeredStore

open ExpiringMap

/-- The key that a request writes, with the entry that it gets. -/
def Request.write? : Request → Option (String × Option (Bytes × Int64))
  | .put key value time => some (key, some (value, time))
  | .remove key => some (key, none)
  | .get _ | .keys _ | .expiry _ | .setExpiry _ _ | .upkeep _ => none

namespace Backend

/-- A write that is answered makes the entry of its key what it should be, and one that fails
changes no entry. -/
structure WritesExactly {σ : Type} (b : Backend σ) (contents : σ → ExpiringMap Bytes) : Prop where
  done : ∀ {r : Request} {key : String} {new? : Option (Bytes × Int64)} {now : Int64} {s s' : σ}
    {a : r.Answer}, r.write? = some (key, new?) → b.perform r now s = (.ok a, s') →
      contents s' = (contents s).set key new?
  undone : ∀ {r : Request} {write : String × Option (Bytes × Int64)} {now : Int64} {s s' : σ}
    {failure : StorageFailure}, r.write? = some write →
      b.perform r now s = (.error failure, s') → contents s' = contents s

namespace WritesExactly

variable {σ τ : Type} {contents : σ → ExpiringMap Bytes}

theorem within {b : Backend τ} {contents : τ → ExpiringMap Bytes} (h : b.WritesExactly contents)
    (p : Place σ τ) : (b.within p).WritesExactly fun s => contents (p.read s) where
  done hwrite hok := by
    obtain ⟨hout, rfl⟩ := Prod.mk.inj hok
    rw [p.read_write]
    exact h.done hwrite (Prod.ext hout rfl)
  undone hwrite herror := by
    obtain ⟨hout, rfl⟩ := Prod.mk.inj herror
    rw [p.read_write]
    exact h.undone hwrite (Prod.ext hout rfl)

variable {b : Backend σ} (h : b.WritesExactly contents)
include h

theorem guarded {gate : Request → σ → Option StorageFailure × σ}
    (hgate : ∀ r s, contents (gate r s).2 = contents s) :
    (b.guarded gate).WritesExactly contents where
  done {r key new? now s s' a} hwrite hok := by
    have hs := hgate r s
    simp only [Backend.guarded] at hok
    split at hok
    · cases hok
    · next u hg =>
      rw [hg] at hs
      rw [← hs]
      exact h.done hwrite hok
  undone {r write now s s' failure} hwrite herror := by
    have hs := hgate r s
    simp only [Backend.guarded] at herror
    split at herror
    · next u hg =>
      rw [hg] at hs
      cases herror
      exact hs
    · next u hg =>
      rw [hg] at hs
      rw [← hs]
      exact h.undone hwrite herror

theorem metered {stats : Place σ Stats}
    (hstats : ∀ t s, contents (stats.write t s) = contents s) :
    (b.metered stats).WritesExactly contents where
  done hwrite hok := by
    obtain ⟨hout, rfl⟩ := Prod.mk.inj hok
    rw [hstats]
    exact h.done hwrite (Prod.ext hout rfl)
  undone hwrite herror := by
    obtain ⟨hout, rfl⟩ := Prod.mk.inj herror
    rw [hstats]
    exact h.undone hwrite (Prod.ext hout rfl)

end WritesExactly

end Backend

theorem MemoryMap.writesExactly (name : String) : (backend name).WritesExactly contents where
  done {r key new? now m m' a} hwrite hok := by
    cases hok
    cases r with
    | put k value expiry => cases hwrite; exact contents_insert m key _
    | remove k => cases hwrite; exact contents_erase m key
    | get | keys | expiry | setExpiry | upkeep => cases hwrite
  undone _ herror := by cases herror

theorem DiskMap.writesExactly (name : String) : (backend name).WritesExactly contents where
  done {r key new? now m m' a} hwrite hok := by
    change perform r now m = (.ok a, m') at hok
    unfold perform at hok
    split at hok
    case h_2 => cases hok
    next answer committed htransact =>
    cases hok
    cases r with
    | put k value expiry =>
      cases hwrite
      obtain ⟨e?, -, hr⟩ := exists_of_map_ok htransact
      cases hr
      exact contents_insert m key _
    | remove k =>
      cases hwrite
      obtain ⟨e?, -, hr⟩ := exists_of_map_ok htransact
      cases hr
      exact contents_erase m key
    | get | keys | expiry | setExpiry | upkeep => cases hwrite
  undone _ herror := congrArg contents (perform_error herror)

/-- All maps write exactly. -/
def Vault.WritesExactly {σ ι : Type} [PolicyKeeper σ] (v : Vault σ ι) : Prop :=
  ∀ i, (v.backend i).WritesExactly (v.contents i)

/-- **The maps of a site write exactly**, whatever faults its volumes have. -/
theorem Site.vault_writesExactly (medium : Nat → Medium) (wrapped : Nat → Bool) :
    (vault medium wrapped).WritesExactly := by
  intro i
  have hbare : (bareMap (medium i.1) i).WritesExactly (bareContents (medium i.1) i) := by
    cases medium i.1 with
    | memory => exact (MemoryMap.writesExactly _).within (memoryMap i)
    | disk => exact (DiskMap.writesExactly _).within (diskMap i)
    | named => exact (MemoryMap.writesExactly _).within (memoryMap i)
  show (map medium wrapped i).WritesExactly _
  unfold map
  split
  · exact (hbare.guarded fun r s => congrArg _ (gate_snd i.1 i.2 r s)).metered
      (bareContents_counts (medium i.1) i i)
  · exact hbare

end LayeredStore
