import LayeredStore.Proofs.Tiers

/-! # Stacks as caches

What the operations of a stack do to the expiring maps of its tiers, whatever fails, and the
invariant that makes the upper tiers a cache: `Caches` says of one key that the lowest tier
has the entry of a target map, and that what the other tiers have is a copy of it.  Reads
of the key keep the invariant and are answered from the target (`Caches.found`); operations
on other keys do not touch it; and a change made in every tier establishes it anew.
-/
namespace LayeredStore

open ExpiringMap

variable {σ V ι : Type} {now : Int64} {is : List ι} {lowest : ι} {m m' : ι → ExpiringMap V}
  {key : String}

/-- What a read of an identifier answers and makes of the maps: it copies an entry that is
live in some tier, or finds that none is, or fails. -/
inductive Found (now : Int64) (id : String) (is : List ι) (m : ι → ExpiringMap V) :
    Except StoreError (Option V) → (ι → ExpiringMap V) → Prop
  | hit {i e m'} : i ∈ is → (m i).live? now id = some e → Touched (·.set id (some e)) is m m' →
      Found now id is m (.ok (some e.1)) m'
  | miss : (∀ i ∈ is, (m i).live? now id = none) → Found now id is m (.ok none) m
  | failed (e : StoreError) : Found now id is m (.error e) m

/-! ### Operations of stacks -/

namespace Tiers

variable [PolicyKeeper σ] [DecidableEq ι] (T : Tiers σ V ι) {stack : Stack σ V}
  (layers : stack.layers = is.map T.layer) {s : σ}

include layers

theorem read_holds (id : String) (h : T.Holds now s m) :
    ∃ m', T.Holds now (stack.read now id s).2 m' ∧
      Found now id is m (stack.read now id s).1 m' := by
  have hsearch := T.searchFrom_holds id is 0 h
  unfold Stack.read
  rw [layers]
  generalize searchFrom now id 0 (is.map T.layer) s = found at hsearch ⊢
  obtain ⟨⟨failures, hit?⟩, t⟩ := found
  obtain ⟨hholds, hhit, hmiss⟩ := hsearch
  cases hit? with
  | some hit =>
    obtain ⟨i, hi, hlive⟩ := hhit hit rfl
    obtain ⟨m', hm', htouched⟩ :=
      T.populate_holds (T.fits hholds hlive) hit.expiry (is.take hit.layer) hholds
    simp only [← List.map_take]
    exact ⟨m', hm', .hit hi hlive htouched.of_take⟩
  | none =>
    cases failures with
    | nil => exact ⟨m, hholds, .miss (hmiss rfl)⟩
    | cons failure failures => exact ⟨m, hholds, .failed _⟩

theorem writeExpiring_holds {id : String} {value : V} (hfits : T.Fits id value) (expiry : Int64)
    (h : T.Holds now s m) :
    ∃ m', T.Holds now (stack.writeExpiring now id value expiry s).2 m' ∧
      Touched (·.set id (some (value, expiry))) is m m' ∧
      ((stack.writeExpiring now id value expiry s).1 = .ok () →
        ∀ i ∈ is, m' i = (m i).set id (some (value, expiry))) := by
  obtain ⟨m', hm', htouched, hall⟩ := T.fanOut_holds "write" Layer.label
    (fun l => l.store now id value expiry) T.layer (·.set id (some (value, expiry)))
    (fun x => set_set x id _)
    (fun i _ _ hs => T.store i id value expiry hs hfits) is h
  unfold Stack.writeExpiring
  rw [layers, Action.bind_apply]
  generalize fanOut _ _ _ _ s = fanned at hm' hall ⊢
  obtain ⟨e | results, t⟩ := fanned
  · exact ⟨m', hm', htouched, nofun⟩
  · exact ⟨m', hm', htouched, fun _ => hall results rfl⟩

theorem remove_holds (id : String) (h : T.Holds now s m) :
    ∃ m', T.Holds now (stack.remove now id s).2 m' ∧ Touched (·.set id none) is m m' ∧
      ∀ found, (stack.remove now id s).1 = .ok found → ∀ i ∈ is, m' i = (m i).set id none := by
  obtain ⟨m', hm', htouched, hall⟩ := T.fanOut_holds "remove" Layer.label
    (fun l => l.discard now id) T.layer (·.set id none) (fun x => set_set x id none)
    (fun i _ _ hs => (T.discard i id hs).mono fun _ _ => trivial) is h
  unfold Stack.remove
  rw [layers, Action.bind_apply]
  generalize fanOut _ _ _ _ s = fanned at hm' hall ⊢
  obtain ⟨e | results, t⟩ := fanned
  · exact ⟨m', hm', htouched, nofun⟩
  · exact ⟨m', hm', htouched, fun _ _ => hall results rfl⟩

theorem upkeepLayers_holds (verb : Upkeep) (h : T.Holds now s m) :
    ∃ m', T.Holds now (stack.upkeepLayers now verb s).2 m' ∧
      Touched (·.afterUpkeep verb) is m m' ∧
      ((stack.upkeepLayers now verb s).1 = .ok () → ∀ i ∈ is, m' i = (m i).afterUpkeep verb) := by
  obtain ⟨m', hm', htouched, hall⟩ := T.fanOut_holds verb.name Member.label
    (fun l => l.upkeep verb now) (Layer.member ∘ T.layer) (·.afterUpkeep verb)
    (fun x => afterUpkeep_afterUpkeep x verb) (fun i _ _ hs => T.upkeep i verb hs) is h
  unfold Stack.upkeepLayers Member.upkeepAll
  rw [layers, List.map_map, Action.bind_apply]
  generalize fanOut _ _ _ _ s = fanned at hm' hall ⊢
  obtain ⟨e | results, t⟩ := fanned
  · exact ⟨m', hm', htouched, nofun⟩
  · exact ⟨m', hm', htouched, fun _ => hall results rfl⟩

theorem upkeep_holds (verb : Upkeep) (h : T.Holds now s m) :
    ∃ m', T.Holds now (stack.upkeep now verb s).2 m' ∧ Touched (·.afterUpkeep verb) is m m' ∧
      ((stack.upkeep now verb s).1 = .ok () → ∀ i ∈ is, m' i = (m i).afterUpkeep verb) := by
  cases verb with
  | setup => exact T.upkeepLayers_holds layers .setup h
  | teardown => exact T.upkeepLayers_holds layers .teardown h
  | maintenance => exact T.upkeepLayers_holds layers .maintenance h
  | clear => exact T.upkeepLayers_holds layers .clear h
  | incremental =>
    have hdrawn := T.policy stack.ticket ((PolicyKeeper.policy stack.ticket).read s).decide.2 h
    rw [Stack.upkeep_incremental now (stack.drawEscalation_apply s)]
    -- The draw decides between two kinds of upkeep that mean the same to a map.
    split
    · exact T.upkeepLayers_holds layers .maintenance hdrawn
    · exact T.upkeepLayers_holds layers .incremental hdrawn

/-- An update reads, and if that succeeds writes what is derived from the answer. -/
theorem update_holds {id : String} {derive : Option V → V}
    (hfits : ∀ current?, (∀ value ∈ current?, T.Fits id value) → T.Fits id (derive current?))
    (h : T.Holds now s m) :
    ∃ m₁ value m', Found now id is m (stack.read now id s).1 m₁ ∧
      T.Holds now (stack.update now id derive s).2 m' ∧
      Touched (·.set id (some (value, expiryAfter now stack.lifespan))) is m₁ m' ∧
      ∀ answer, (stack.update now id derive s).1 = .ok answer →
        answer = value ∧ (∃ current?, (stack.read now id s).1 = .ok current? ∧
          value = derive current?) ∧
        ∀ i ∈ is, m' i = (m₁ i).set id (some (value, expiryAfter now stack.lifespan)) := by
  obtain ⟨m₁, hm₁, hfound⟩ := T.read_holds layers id h
  unfold Stack.update
  rw [Action.bind_apply]
  generalize stack.read now id s = read at hm₁ hfound ⊢
  obtain ⟨e | current?, t⟩ := read
  -- A failed read writes nothing, so any value serves.
  · exact ⟨m₁, derive none, m₁, hfound, hm₁, .refl _ is m₁, nofun⟩
  have hvalue : T.Fits id (derive current?) := hfits current? fun value hmem => by
    cases hfound with
    | hit hi hlive _ =>
      obtain rfl := Option.some.inj hmem
      exact T.fits h hlive
    | miss _ => cases hmem
  obtain ⟨m', hm', htouched, hall⟩ := T.writeExpiring_holds layers hvalue
    (expiryAfter now stack.lifespan) hm₁
  refine ⟨m₁, derive current?, m', hfound, ?_, htouched, fun answer hanswer => ?_⟩ <;>
    simp only [Action.bind_apply, Stack.write] at * <;>
    generalize stack.writeExpiring now id (derive current?) _ t = written at *
  · obtain ⟨e | _, u⟩ := written <;> exact hm'
  · obtain ⟨e | _, u⟩ := written
    · cases hanswer
    · exact ⟨(Except.ok.inj hanswer).symm, ⟨current?, rfl, rfl⟩, hall rfl⟩

end Tiers

/-! ### Caches of a key -/

/-- For a key, the lowest tier has the entry of a target, and what other tiers have of it is
a copy. -/
structure Caches (now : Int64) (is : List ι) (lowest : ι) (m : ι → ExpiringMap V)
    (target : ExpiringMap V) (key : String) : Prop where
  /-- The lowest tier has the entry. -/
  source : (m lowest).live? now key = target.live? now key
  /-- The others have it or nothing. -/
  copies : ∀ i ∈ is, (m i).live? now key = none ∨ (m i).live? now key = target.live? now key

namespace Caches

variable {target target' : ExpiringMap V}

theorem later {next : Int64} (h : Caches now is lowest m target key) (hle : now ≤ next) :
    Caches next is lowest m target key where
  source := by rw [live?_later hle, live?_later hle target, h.source]
  copies i hi := by
    rcases h.copies i hi with hnone | hcopy
    · exact .inl (live?_later_of_none hle hnone)
    · exact .inr (by rw [live?_later hle, live?_later hle target, hcopy])

/-- A cache may forget, and anything may happen to other keys. -/
theorem forgets (h : Caches now is lowest m target key)
    (hsource : (m' lowest).live? now key = (m lowest).live? now key)
    (hcopies : ∀ i ∈ is, (m' i).live? now key = none ∨
      (m' i).live? now key = (m i).live? now key) :
    Caches now is lowest m' target key where
  source := hsource.trans h.source
  copies i hi := by
    rcases hcopies i hi with hnone | hsame
    · exact .inl hnone
    · rw [hsame]
      exact h.copies i hi

/-- A change that leaves the key alone. -/
theorem touched (h : Caches now is lowest m target key) {f : ExpiringMap V → ExpiringMap V}
    (hf : ∀ x, (f x).live? now key = x.live? now key) (ht : Touched f is m m') :
    Caches now is lowest m' target key := by
  have hsame : ∀ i, (m' i).live? now key = (m i).live? now key := by
    intro i
    rcases ht i with heq | ⟨-, heq⟩
    · rw [heq]
    · rw [heq, hf]
  exact h.forgets (hsame lowest) fun i _ => .inr (hsame i)

/-- A change made in every tier. -/
theorem all (hmem : lowest ∈ is) {f : ExpiringMap V → ExpiringMap V}
    (hf : ∀ x, (f x).live? now key = target.live? now key) (hall : ∀ i ∈ is, m' i = f (m i)) :
    Caches now is lowest m' target key where
  source := by rw [hall lowest hmem, hf]
  copies i hi := .inr (by rw [hall i hi, hf])

/-- **A read of the key is answered from the target and keeps the cache right.** -/
theorem found (h : Caches now is lowest m target key) (hmem : lowest ∈ is)
    {answer : Except StoreError (Option V)} (hfound : Found now key is m answer m') :
    Caches now is lowest m' target key ∧
      ∀ value?, answer = .ok value? → value? = (target.live? now key).map Prod.fst := by
  cases hfound with
  | failed e => exact ⟨h, nofun⟩
  | miss hmiss =>
    refine ⟨h, fun value? hvalue => ?_⟩
    rw [← Except.ok.inj hvalue, ← h.source, hmiss lowest hmem]
    rfl
  | @hit i e _ hi hlive ht =>
    -- Whichever tier was hit, what it has is a copy, so what it hands on is one as well.
    have htarget : target.live? now key = some e := by
      rcases h.copies i hi with hnone | hcopy
      · rw [hnone] at hlive
        cases hlive
      · rw [← hcopy, hlive]
    have hset : ∀ x : ExpiringMap V, (x.set key (some e)).live? now key = some e := by
      intro x
      rw [live?_set_self, Option.filter_some_pos]
      simpa using not_isExpired_of_live? hlive
    refine ⟨⟨?_, fun j hj => ?_⟩, fun value? hvalue => ?_⟩
    · rcases ht lowest with heq | ⟨-, heq⟩
      · rw [heq, h.source]
      · rw [heq, hset, htarget]
    · rcases ht j with heq | ⟨-, heq⟩
      · rw [heq]
        exact h.copies j hj
      · exact .inr (by rw [heq, hset, htarget])
    · rw [← Except.ok.inj hvalue, htarget]
      rfl

/-- A read of another key does not touch the cache. -/
theorem found_of_ne (h : Caches now is lowest m target key) {id : String} (hne : key ≠ id)
    {answer : Except StoreError (Option V)} (hfound : Found now id is m answer m') :
    Caches now is lowest m' target key := by
  cases hfound with
  | failed e => exact h
  | miss _ => exact h
  | hit _ _ ht => exact h.touched (fun x => live?_set_of_ne x now hne _) ht

end Caches

end LayeredStore
