import LayeredStore.Proofs.Caching
import LayeredStore.Proofs.SiteVault

/-! # Acknowledged mutations

What a stack of backends says it has done stays done.  Once a mutation of a key has
succeeded, every layer has its result (`Acknowledged.kept`); from then on the upper layers
may lose the key at any time and any request may fail, but whatever they still have of it
is the result, and the lowest layer has it until it expires (`StackEvent.kept`).  So a read
of the key is right or fails.
-/
namespace LayeredStore

open ExpiringMap

/-- What can happen to a stack of backends. -/
inductive StackEvent (σ : Type)
  | read (id : String)
  | write (id : String) (value : Bytes)
  | writeExpiring (id : String) (value : Bytes) (expiry : Int64)
  | update (id : String) (derive : Option Bytes → Bytes)
  | remove (id : String)
  | upkeep (verb : Upkeep)
  /-- Something that happens to the state behind the stack's back. -/
  | outside (change : σ → σ)

/-- A successful mutation of a key at a time: the entry that the key has by it, and the
states before and after. -/
inductive Acknowledged {σ : Type} (stack : Stack σ Bytes) (now : Int64) (key : String) :
    Option (Bytes × Int64) → σ → σ → Prop
  | write {value s s'} : stack.write now key value s = (.ok (), s') →
      Acknowledged stack now key (some (value, expiryAfter now stack.lifespan)) s s'
  | writeExpiring {value expiry s s'} : stack.writeExpiring now key value expiry s = (.ok (), s') →
      Acknowledged stack now key (some (value, expiry)) s s'
  | update {derive value s s'} : stack.update now key derive s = (.ok value, s') →
      Acknowledged stack now key (some (value, expiryAfter now stack.lifespan)) s s'
  | remove {found s s'} : stack.remove now key s = (.ok found, s') →
      Acknowledged stack now key none s s'

variable {σ ι : Type} [PolicyKeeper σ]

/-- A change that leaves a map as it is and can only take entries from some others. -/
def Vault.Forgets (v : Vault σ ι) (others : List ι) (kept : ι) (change : σ → σ) : Prop :=
  ∀ s, v.contents kept (change s) = v.contents kept s ∧
    ∀ i ∈ others, ∀ key, v.contents i (change s) key = v.contents i s key ∨
      v.contents i (change s) key = none

namespace StackEvent

/-- The state after an event. -/
def step (stack : Stack σ Bytes) (now : Int64) (s : σ) : StackEvent σ → σ
  | read id => (stack.read now id s).2
  | write id value => (stack.write now id value s).2
  | writeExpiring id value expiry => (stack.writeExpiring now id value expiry s).2
  | update id derive => (stack.update now id derive s).2
  | remove id => (stack.remove now id s).2
  | upkeep verb => (stack.upkeep now verb s).2
  | outside change => change s

/-- The state after events, each at a time. -/
def run (stack : Stack σ Bytes) (events : List (Int64 × StackEvent σ)) (s : σ) : σ :=
  events.foldl (fun s e => e.2.step stack e.1 s) s

/-- The event attempts no mutation of a key and deletes no data, and behind the stack's back
only the upper layers lose anything. -/
def Spares (v : Vault σ ι) (uppers : List ι) (lowest : ι) (key : String) : StackEvent σ → Prop
  | read _ => True
  | write id _ | writeExpiring id _ _ | update id _ | remove id => key ≠ id
  | upkeep verb => verb ≠ .teardown ∧ verb ≠ .clear
  | outside change => v.Forgets uppers lowest change

end StackEvent

/-- The upper backends are caches of the lowest one for a key, which has an entry by right. -/
def Vault.Kept (v : Vault σ ι) (is : List ι) (lowest : ι) (key : String)
    (target? : Option (Bytes × Int64)) (now : Int64) (s : σ) : Prop :=
  ∃ m, v.Holds now s m ∧ Caches now is lowest m (ExpiringMap.empty.set key target?) key

variable {v : Vault σ ι} {stack : Stack σ Bytes} {uppers : List ι} {lowest : ι} {key : String}
  {target? : Option (Bytes × Int64)} {now : Int64}

namespace Vault.Kept

theorem later {s : σ} {next : Int64} (h : v.Kept uppers lowest key target? now s)
    (hle : now ≤ next) : v.Kept uppers lowest key target? next s := by
  obtain ⟨m, hm, hcaches⟩ := h
  exact ⟨m, hm.later hle, hcaches.later hle⟩

/-- Upper backends may forget. -/
theorem forgets {s : σ} {change : σ → σ} (h : v.Kept (uppers ++ [lowest]) lowest key target? now s)
    (hforgets : v.Forgets uppers lowest change) :
    v.Kept (uppers ++ [lowest]) lowest key target? now (change s) := by
  obtain ⟨m, hm, hcaches⟩ := h
  obtain ⟨hlowest, huppers⟩ := hforgets s
  -- The change need not go through a backend, so its outcome is what the maps then hold.
  refine ⟨fun i => v.contents i (change s), fun i => .refl now _, hcaches.forgets ?_ ?_⟩
  · show (v.contents lowest (change s)).live? now key = _
    rw [hlowest, hm lowest]
  · intro i hi
    rcases List.mem_append.1 hi with hupper | hlow
    · rw [← hm i]
      unfold live?
      rcases huppers i hupper key with hsame | hgone
      · exact .inr (by rw [hsame])
      · exact .inl (by rw [hgone]; rfl)
    · obtain rfl := List.mem_singleton.1 hlow
      exact .inr (by rw [hlowest, hm i])

end Vault.Kept

variable [DecidableEq ι]

section

variable (layers : stack.layers = (uppers ++ [lowest]).map v.tiers.layer)
include layers

/-- An acknowledged mutation is in every layer. -/
theorem Acknowledged.kept {s s' : σ} (h : Acknowledged stack now key target? s s') :
    v.Kept (uppers ++ [lowest]) lowest key target? now s' := by
  have hmem : lowest ∈ uppers ++ [lowest] := List.mem_concat_self
  have hstart : v.tiers.Holds now s fun i => v.contents i s := fun i => .refl now _
  have hset : ∀ (new? : Option (Bytes × Int64)) (x : ExpiringMap Bytes),
      (x.set key new?).live? now key = (ExpiringMap.empty.set key new?).live? now key :=
    fun new? x => by rw [live?_set_self, live?_set_self]
  cases h with
  | write hok =>
    obtain ⟨m', hm', -, hall⟩ := v.tiers.writeExpiring_holds layers trivial
      (expiryAfter now stack.lifespan) hstart
    unfold Stack.write at hok
    rw [hok] at hm' hall
    exact ⟨m', hm', .all hmem (hset _) (hall rfl)⟩
  | @writeExpiring value expiry _ _ hok =>
    obtain ⟨m', hm', -, hall⟩ := v.tiers.writeExpiring_holds layers trivial expiry hstart
    rw [hok] at hm' hall
    exact ⟨m', hm', .all hmem (hset _) (hall rfl)⟩
  | update hok =>
    obtain ⟨m₁, value, m', -, hm', -, hall⟩ := v.tiers.update_holds layers
      (fun _ _ => trivial) hstart
    rw [hok] at hm' hall
    obtain ⟨rfl, -, hall⟩ := hall _ rfl
    exact ⟨m', hm', .all hmem (hset _) hall⟩
  | remove hok =>
    obtain ⟨m', hm', -, hall⟩ := v.tiers.remove_holds layers key hstart
    rw [hok] at hm' hall
    exact ⟨m', hm', .all hmem (hset _) (hall _ rfl)⟩

/-- **What spares a key leaves its entry in the lowest layer and its copies right.** -/
theorem StackEvent.kept {s : σ} (h : v.Kept (uppers ++ [lowest]) lowest key target? now s)
    {event : StackEvent σ} (hspares : event.Spares v uppers lowest key) :
    v.Kept (uppers ++ [lowest]) lowest key target? now (event.step stack now s) := by
  have ⟨m, hm, hcaches⟩ := h
  have hmem : lowest ∈ uppers ++ [lowest] := List.mem_concat_self
  cases event with
  | read id =>
    obtain ⟨m', hm', hfound⟩ := v.tiers.read_holds layers id hm
    by_cases hid : key = id
    · subst hid
      exact ⟨m', hm', (hcaches.found hmem hfound).1⟩
    · exact ⟨m', hm', hcaches.found_of_ne hid hfound⟩
  | write id value =>
    obtain ⟨m', hm', htouched, -⟩ := v.tiers.writeExpiring_holds layers trivial
      (expiryAfter now stack.lifespan) hm
    exact ⟨m', hm', hcaches.touched (fun x => live?_set_of_ne x now hspares _) htouched⟩
  | writeExpiring id value expiry =>
    obtain ⟨m', hm', htouched, -⟩ := v.tiers.writeExpiring_holds layers trivial expiry hm
    exact ⟨m', hm', hcaches.touched (fun x => live?_set_of_ne x now hspares _) htouched⟩
  | update id derive =>
    obtain ⟨m₁, value, m', hfound, hm', htouched, -⟩ := v.tiers.update_holds layers
      (fun _ _ => trivial) hm
    have hread := hcaches.found_of_ne hspares hfound
    exact ⟨m', hm', hread.touched (fun x => live?_set_of_ne x now hspares _) htouched⟩
  | remove id =>
    obtain ⟨m', hm', htouched, -⟩ := v.tiers.remove_holds layers id hm
    exact ⟨m', hm', hcaches.touched (fun x => live?_set_of_ne x now hspares _) htouched⟩
  | upkeep verb =>
    obtain ⟨m', hm', htouched, -⟩ := v.tiers.upkeep_holds layers verb hm
    have hkeeps : ∀ x : ExpiringMap Bytes, (x.afterUpkeep verb).live? now key = x.live? now key := by
      intro x
      cases verb with
      | setup | maintenance | incremental => rfl
      | teardown => exact absurd rfl hspares.1
      | clear => exact absurd rfl hspares.2
    exact ⟨m', hm', hcaches.touched hkeeps htouched⟩
  | outside change => exact h.forgets hspares

/-- Events that spare a key, one after another. -/
theorem StackEvent.run_kept {s : σ} {events : List (Int64 × StackEvent σ)}
    (hspares : ∀ e ∈ events, e.2.Spares v uppers lowest key) {finish : Int64}
    (clock : (now :: events.map Prod.fst ++ [finish]).Pairwise (· ≤ ·))
    (h : v.Kept (uppers ++ [lowest]) lowest key target? now s) :
    v.Kept (uppers ++ [lowest]) lowest key target? finish (run stack events s) := by
  induction events generalizing s now with
  | nil =>
    have hle : now ≤ finish := by simpa using clock
    exact h.later hle
  | cons e rest ih =>
    obtain ⟨time, event⟩ := e
    have hle : now ≤ time := (List.pairwise_cons.1 clock).1 time (by simp)
    exact ih (fun e he => hspares e (List.mem_cons_of_mem _ he)) (List.pairwise_cons.1 clock).2
      (StackEvent.kept layers (h.later hle) (hspares _ List.mem_cons_self))

end

/-- **An acknowledged mutation is exact, whatever fails later.**  From the successful
mutation of a key on, while nothing else is attempted on the key, no data is deleted and
the lowest backend is left alone, a read of the key that succeeds answers with the value of
the mutation until that expires, and from then on with nothing. -/
theorem Acknowledged.read_exact
    (layers : stack.layers = (uppers ++ [lowest]).map fun i => Layer.ofBackend (v.backend i))
    {start : Int64} {s s' : σ} (hack : Acknowledged stack start key target? s s')
    {events : List (Int64 × StackEvent σ)}
    (hspares : ∀ e ∈ events, e.2.Spares v uppers lowest key)
    (clock : (start :: events.map Prod.fst ++ [now]).Pairwise (· ≤ ·))
    {value? : Option Bytes} {s'' : σ}
    (hread : stack.read now key (StackEvent.run stack events s') = (.ok value?, s'')) :
    value? = (target?.filter fun e => !isExpired e.2 now).map Prod.fst := by
  obtain ⟨m, hm, hcaches⟩ := StackEvent.run_kept layers hspares clock (hack.kept layers)
  have hmem : lowest ∈ uppers ++ [lowest] := List.mem_concat_self
  obtain ⟨m', -, hfound⟩ := v.tiers.read_holds layers key hm
  rw [hread] at hfound
  rw [(hcaches.found hmem hfound).2 value? rfl, live?_set_self]

/-- Two volumes in memory, whose maps can be made to fail. -/
def twoVolumes : Site := .ofVolumes default [.new .memory true, .new .memory true]

/-- The maps of one name on two volumes, in a stack whose values live for five seconds. -/
def twoLayers : Stack Site Bytes :=
  ⟨"cached", ([(0, "k")] ++ [(1, "k")]).map fun i =>
    Layer.ofBackend ((Site.vault (fun _ => .memory) fun _ => true).backend i), 5, 0⟩

/-- The upper map loses everything, and its reads fail. -/
def upperLost : StackEvent Site := .outside fun s =>
  Site.setFault 0 ⟨[.get], .io, none⟩ ((Site.memoryMap (0, "k")).write .empty s)

theorem upperLost_spares : upperLost.Spares (Site.vault (fun _ => .memory) fun _ => true)
    [(0, "k")] (1, "k") "a" := by
  intro s
  have hvolume : (1 : Nat) ≠ 0 := by decide
  refine ⟨?_, fun i hi key => .inr ?_⟩
  · simp [Site.vault, Site.bareContents, Site.memoryMap, Site.setFault, Place.inside,
      (Site.volume_independent hvolume).read_of_write]
  · obtain rfl := List.mem_singleton.1 hi
    simp [Site.vault, Site.bareContents, Site.memoryMap, Site.setFault, Place.inside,
      (Site.volume 0).read_write, Volume.memoryPlace, ExpiringMap.empty]

/-- The volumes after a write at the first second and the loss at the next. -/
def twoVolumesLost : Site :=
  StackEvent.run twoLayers [(2, upperLost)] (twoLayers.write 1 "a" [7] twoVolumes).2

theorem Acknowledged.read_exact_twoLayers :
    Acknowledged twoLayers 1 "a" (some ([7], 6)) twoVolumes
        (twoLayers.write 1 "a" [7] twoVolumes).2 ∧
      (twoLayers.read 5 "a" twoVolumesLost).1 = .ok (some [7]) := by
  have hack : Acknowledged twoLayers 1 "a" (some ([7], 6)) twoVolumes
      (twoLayers.write 1 "a" [7] twoVolumes).2 := .write rfl
  have hspares : ∀ e ∈ [((2 : Int64), upperLost)], e.2.Spares (Site.vault (fun _ => .memory)
      fun _ => true) [(0, "k")] (1, "k") "a" := by
    intro e he
    obtain rfl := List.mem_singleton.1 he
    exact upperLost_spares
  have layers : twoLayers.layers = ([(0, "k")] ++ [(1, "k")]).map fun i =>
      Layer.ofBackend ((Site.vault (fun _ => .memory) fun _ => true).backend i) := rfl
  obtain ⟨value?, hvalue⟩ : ∃ value?, (twoLayers.read 5 "a" twoVolumesLost).1 = .ok value? :=
    ⟨some [7], rfl⟩
  have hexact := hack.read_exact layers hspares (by decide) (Prod.ext hvalue rfl)
  refine ⟨hack, hvalue.trans (congrArg _ (hexact.trans ?_))⟩
  decide

end LayeredStore
