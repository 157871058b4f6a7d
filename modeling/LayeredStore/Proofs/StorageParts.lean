import LayeredStore.Proofs.Footprints
import LayeredStore.Proofs.SiteVault

/-! # Parts of the storage

The storage has parts, one for each map of a vault and one for each policy.  Where the
backends are independent of one another, a request works on the part of its map
(`Vault.Divides`); the backends may fail as they like, as long as that depends on their own
part, too.  Such are the maps of a site with the faults of their volumes
(`Site.vault_divides`).
-/
namespace LayeredStore

/-- A place belongs to some parts of the state: it is read from them and written into them. -/
structure Place.OwnedBy {σ τ π γ : Type} (p : Place σ τ) (part : π → σ → γ) (own : π → Prop) :
    Prop where
  read : ∀ {s t}, (∀ q, own q → part q s = part q t) → p.read s = p.read t
  write : ∀ (u) {s t}, (∀ q, own q → part q s = part q t) →
    ∀ q, own q → part q (p.write u s) = part q (p.write u t)
  others : ∀ {q} (u s), ¬ own q → part q (p.write u s) = part q s

namespace Backend.WorksOn

variable {σ τ π γ : Type} {part : π → σ → γ} {own : π → Prop}

theorem within {p : Place σ τ} (hp : p.OwnedBy part own) (b : Backend τ) :
    (b.within p).WorksOn part own := fun r now =>
  { alone := fun {s t} h => by
      simp only [Backend.within, Action.within_apply, hp.read h]
      exact ⟨trivial, hp.write _ h⟩
    others := fun s hq => hp.others _ s hq }

theorem guarded {b : Backend σ} (h : b.WorksOn part own)
    {gate : Request → σ → Option StorageFailure × σ} (hgate : ∀ r s, (gate r s).2 = s)
    (halone : ∀ r s t, (∀ q, own q → part q s = part q t) → (gate r s).1 = (gate r t).1) :
    (b.guarded gate).WorksOn part own := by
  have hrefuse : ∀ {r now s failure}, (gate r s).1 = some failure →
      (b.guarded gate).perform r now s = (.error failure, s) := by
    intro r now s failure hfailure
    simp only [Backend.guarded, show gate r s = (some failure, s) from Prod.ext hfailure (hgate r s)]
  have hpass : ∀ {r now s}, (gate r s).1 = none →
      (b.guarded gate).perform r now s = b.perform r now s := by
    intro r now s hnone
    simp only [Backend.guarded, show gate r s = (none, s) from Prod.ext hnone (hgate r s)]
  refine fun r now => ⟨fun {s t} hst => ?_, fun {p} s hp => ?_⟩
  · have hsame := halone r s t hst
    cases hs : (gate r s).1 with
    | some failure =>
      rw [hrefuse hs, hrefuse (hsame.symm.trans hs)]
      exact ⟨rfl, hst⟩
    | none =>
      rw [hpass hs, hpass (hsame.symm.trans hs)]
      exact (h r now).alone hst
  · cases hs : (gate r s).1 with
    | some failure => rw [hrefuse hs]
    | none =>
      rw [hpass hs]
      exact (h r now).others s hp

theorem metered {b : Backend σ} (h : b.WorksOn part own) {stats : Place σ Stats}
    (hstats : stats.OwnedBy part own) : (b.metered stats).WorksOn part own := by
  refine fun r now => ⟨fun {s t} hst => ?_, fun {p} s hp => ?_⟩
  · obtain ⟨houtcome, hparts⟩ := (h r now).alone hst
    simp only [Backend.metered, houtcome, hstats.read hparts]
    exact ⟨trivial, hstats.write _ hparts⟩
  · exact (hstats.others _ _ hp).trans ((h r now).others s hp)

end Backend.WorksOn

/-! ### Maps and policies -/

section

variable {σ ι β : Type} [PolicyKeeper σ]

/-- The part of a map, as it is looked at, or the policy of a ticket. -/
def partOf (look : ι → σ → β) : ι ⊕ Nat → σ → β ⊕ EscalationPolicy
  | .inl i, s => .inl (look i s)
  | .inr ticket, s => .inr ((PolicyKeeper.policy ticket).read s)

/-- The backends of a vault are independent of one another and of the policies: each works on
what is looked at as its map, and that is enough to tell the entries. -/
structure Vault.Divides (v : Vault σ ι) (look : ι → σ → β) : Prop where
  requests : ∀ i, (v.backend i).WorksOn (partOf look) (· = .inl i)
  policies : ∀ {p ticket} (policy s), p ≠ .inr ticket →
    partOf look p ((PolicyKeeper.policy ticket).write policy s) = partOf look p s
  contents : ∀ {i s t}, look i s = look i t → v.contents i s = v.contents i t

/-- The draw of a stack works on the stack's policy. -/
theorem Vault.Divides.drawEscalation_worksOn {v : Vault σ ι} {look : ι → σ → β} (hv : v.Divides look)
    {V : Type} (stack : Stack σ V) :
    stack.drawEscalation.WorksOn (partOf look) (· = .inr stack.ticket) where
  alone {s t} h := by
    have hread := Sum.inr.inj (h _ rfl)
    rw [Stack.drawEscalation_apply, Stack.drawEscalation_apply, hread]
    refine ⟨rfl, ?_⟩
    rintro _ rfl
    simp only [partOf, Place.read_write]
  others s hp := hv.policies _ s hp

end

/-! ### The maps of a site -/

namespace Site

/-- All that a map of a site depends on. -/
structure MapState where
  /-- Whether the maps of its volume are guarded. -/
  wrapped : Bool
  /-- The fault of its volume. -/
  fault? : Option Fault
  /-- The entries in memory. -/
  memory : MemoryMap
  /-- The entries on disk. -/
  disk : DiskMap
  /-- What has been counted. -/
  stats : Stats

/-- What a map of a site depends on, read off the site. -/
def mapState (i : MapId) (s : Site) : MapState :=
  ⟨((volume i.1).read s).wrapped, ((volume i.1).read s).fault?, (memoryMap i).read s,
    (diskMap i).read s, (counts i).read s⟩

section

variable (i : MapId) (s : Site)

theorem mapState_memory (m : MemoryMap) :
    mapState i ((memoryMap i).write m s) = { mapState i s with memory := m } := by
  simp [mapState, memoryMap, diskMap, counts, Place.inside, (volume i.1).read_write,
    Volume.memoryPlace, Volume.diskPlace, Volume.statsPlace]

theorem mapState_disk (m : DiskMap) :
    mapState i ((diskMap i).write m s) = { mapState i s with disk := m } := by
  simp [mapState, memoryMap, diskMap, counts, Place.inside, (volume i.1).read_write,
    Volume.memoryPlace, Volume.diskPlace, Volume.statsPlace]

theorem mapState_counts (m : Stats) :
    mapState i ((counts i).write m s) = { mapState i s with stats := m } := by
  simp [mapState, memoryMap, diskMap, counts, Place.inside, (volume i.1).read_write,
    Volume.memoryPlace, Volume.diskPlace, Volume.statsPlace]

variable {i} {j : MapId} (h : j ≠ i)
include h

/-- What a map depends on is not touched by what is written for another map. -/
theorem mapState_of_ne :
    (∀ m, mapState j ((memoryMap i).write m s) = mapState j s) ∧
      (∀ m, mapState j ((diskMap i).write m s) = mapState j s) ∧
      ∀ m, mapState j ((counts i).write m s) = mapState j s := by
  by_cases hv : j.1 = i.1
  · have hname : i.2 ≠ j.2 := fun hn => h (Prod.ext hv hn.symm)
    refine ⟨fun m => ?_, fun m => ?_, fun m => ?_⟩ <;>
      simp [mapState, memoryMap, diskMap, counts, Place.inside, hv, (volume i.1).read_write,
        Volume.memoryPlace, Volume.diskPlace, Volume.statsPlace, Dictionary.get?_insert_of_ne _ hname]
  · have hread := (volume_independent hv).read_of_write
    refine ⟨fun m => ?_, fun m => ?_, fun m => ?_⟩ <;>
      simp [mapState, memoryMap, diskMap, counts, Place.inside, hread]

end

/-- Where the data of a map are kept is part of what the map depends on. -/
theorem ownedBy_mapState {τ : Type} {i : MapId} {place : Place Site τ} (read : MapState → τ)
    (write : τ → MapState → MapState)
    (hread : ∀ s, place.read s = read (mapState i s))
    (hwrite : ∀ u s, mapState i (place.write u s) = write u (mapState i s))
    (hothers : ∀ {j} u s, j ≠ i → mapState j (place.write u s) = mapState j s)
    (hpolicies : ∀ ticket u s, (policy ticket).read (place.write u s) = (policy ticket).read s) :
    place.OwnedBy (partOf mapState) (· = .inl i) where
  read h := by
    rw [hread, hread, Sum.inl.inj (h _ rfl)]
  write u {s t} h := by
    rintro _ rfl
    rw [partOf, partOf, hwrite, hwrite, Sum.inl.inj (h _ rfl)]
  others u s hp := by
    rename_i p
    cases p with
    | inl j => exact congrArg Sum.inl (hothers u s fun hj => hp (congrArg _ hj))
    | inr ticket => exact congrArg Sum.inr (hpolicies ticket u s)

/-- **The maps of a site are independent of one another**, with the faults of their volumes. -/
theorem vault_divides (medium : Nat → Medium) (wrapped : Nat → Bool) :
    (vault medium wrapped).Divides mapState where
  requests i := by
    have hmemory : (memoryMap i).OwnedBy (partOf mapState) (· = .inl i) :=
      ownedBy_mapState MapState.memory (fun m state => { state with memory := m })
        (fun _ => rfl) (fun m s => mapState_memory i s m)
        (fun m s hj => (mapState_of_ne s hj).1 m) fun _ _ _ => rfl
    have hdisk : (diskMap i).OwnedBy (partOf mapState) (· = .inl i) :=
      ownedBy_mapState MapState.disk (fun m state => { state with disk := m })
        (fun _ => rfl) (fun m s => mapState_disk i s m)
        (fun m s hj => (mapState_of_ne s hj).2.1 m) fun _ _ _ => rfl
    have hcounts : (counts i).OwnedBy (partOf mapState) (· = .inl i) :=
      ownedBy_mapState MapState.stats (fun m state => { state with stats := m })
        (fun _ => rfl) (fun m s => mapState_counts i s m)
        (fun m s hj => (mapState_of_ne s hj).2.2 m) fun _ _ _ => rfl
    have hbare : (bareMap (medium i.1) i).WorksOn (partOf mapState) (· = .inl i) := by
      unfold bareMap
      cases medium i.1 with
      | memory | named => exact .within hmemory _
      | disk => exact .within hdisk _
    show (map medium wrapped i).WorksOn _ _
    unfold map
    split
    · refine .metered (.guarded hbare (fun r s => gate_snd i.1 i.2 r s) fun r s t h => ?_) hcounts
      have hstate : mapState i s = mapState i t := Sum.inl.inj (h _ rfl)
      obtain ⟨hwrapped, hfault, -⟩ := MapState.mk.inj hstate
      simp only [gate, Volume.failure?, hwrapped, hfault]
    · exact hbare
  policies {p ticket} policy s hp := by
    cases p with
    | inl i => rfl
    | inr other =>
      have hother : ticket ≠ other := fun heq => hp (congrArg _ heq.symm)
      show Sum.inr ((Site.policy other).read ((Site.policy ticket).write policy s)) = _
      simp [partOf, Site.policy, PolicyKeeper.policy, Dictionary.get?_insert_of_ne _ hother]
  contents {i s t} h := by
    obtain ⟨-, -, hmemory, hdisk, -⟩ := MapState.mk.inj h
    show bareContents (medium i.1) i s = bareContents (medium i.1) i t
    unfold bareContents
    rw [hmemory, hdisk]

end Site

end LayeredStore
