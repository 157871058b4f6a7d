import LayeredStore.Proofs.Caching

/-! # Tiers without faults

Where no operation of a tier fails, no operation of a stack of them fails either, and
operations on every tier do their work in all of them (`attemptEach_all`).  A removal
tells whether some tier had the identifier (`Tiers.Reliable.remove_all`), and a read is answered
(`Tiers.Reliable.read_ok`).
-/
namespace LayeredStore

open ExpiringMap

/-! ### Work on every member -/

/-- Parts of a state with some of them changed. -/
def changedOn {ι μ : Type} [DecidableEq ι] (f : μ → μ) (is : List ι) (m : ι → μ) : ι → μ :=
  fun i => if i ∈ is then f (m i) else m i

section

variable {σ ι μ α : Type} [DecidableEq ι] {f : μ → μ} {answer : μ → α}

theorem changedOn_of_mem {i : ι} {is : List ι} (hi : i ∈ is) (m : ι → μ) :
    changedOn f is m i = f (m i) := if_pos hi

theorem changedOn_of_notMem {i : ι} {is : List ι} (hi : i ∉ is) (m : ι → μ) :
    changedOn f is m i = m i := if_neg hi

theorem changedOn_cons {i : ι} {rest : List ι} (hnot : i ∉ rest) (m : ι → μ) :
    changedOn f (i :: rest) m = changedOn f rest (Function.update m i (f (m i))) := by
  funext j
  unfold changedOn
  by_cases hj : j = i
  · subst hj
    rw [if_pos List.mem_cons_self, if_neg hnot, Function.update_self]
  · simp only [Function.update_of_ne hj, List.mem_cons, hj, false_or]

variable {holds : σ → (ι → μ) → Prop}

/-- Members that each do their part succeed one after another. -/
theorem attemptEach_all {act : ι → Action σ StoreError α}
    (hact : ∀ i s m, holds s m →
      ∃ t, act i s = (.ok (answer (m i)), t) ∧ holds t (Function.update m i (f (m i))))
    {is : List ι} (hnodup : is.Nodup) {s : σ} {m : ι → μ} (h : holds s m) :
    ∃ t, attemptEach act is s = ((is.map fun i => answer (m i)).map .ok, t) ∧
      holds t (changedOn f is m) := by
  induction is generalizing s m with
  | nil => exact ⟨s, rfl, h⟩
  | cons i rest ih =>
    -- No member comes twice, so what is done first does not show in the later answers.
    obtain ⟨hnot, hrest⟩ := List.nodup_cons.1 hnodup
    obtain ⟨t, ht, hholds⟩ := hact i s m h
    obtain ⟨u, hu, hfinal⟩ := ih hrest hholds
    refine ⟨u, ?_, ?_⟩
    · have hothers : (rest.map fun j => answer (Function.update m i (f (m i)) j)) =
          rest.map fun j => answer (m j) := List.map_congr_left fun j hj => by
        have hne : j ≠ i := fun heq => hnot (heq ▸ hj)
        rw [Function.update_of_ne hne]
      rw [attemptEach, ht]
      simp only [hu, hothers, List.map_cons]
    · rw [changedOn_cons hnot]
      exact hfinal

theorem resultsOf_map_ok (l : List α) : resultsOf (l.map .ok) = l := by
  induction l with
  | nil => rfl
  | cons a l ih => rw [List.map_cons, resultsOf, ih]

/-- And so does the operation on all of them. -/
theorem fanOut_all {κ : Type} (operation : String) (label : κ → String)
    (act : κ → Action σ StoreError α) (member : ι → κ) (answer : μ → α) (f : μ → μ)
    (hact : ∀ i s m, holds s m → ∃ t, act (member i) s = (.ok (answer (m i)), t) ∧
      holds t (Function.update m i (f (m i))))
    {is : List ι} (hnodup : is.Nodup) {s : σ} {m : ι → μ} (h : holds s m) :
    ∃ t, fanOut operation label act (is.map member) s = (.ok (is.map fun i => answer (m i)), t) ∧
      holds t (changedOn f is m) := by
  obtain ⟨t, ht, hholds⟩ := attemptEach_all hact hnodup h
  refine ⟨t, ?_, hholds⟩
  have hnone : failuresFrom label 0 (is.map member)
      ((is.map fun i => answer (m i)).map .ok) = [] := by
    rw [failuresFrom_eq_nil_iff (by simp), resultsOf_map_ok]
  unfold fanOut
  rw [attemptEach_map, ht]
  simp only [hnone, resultsOf_map_ok]

end

/-! ### Stacks of tiers -/

namespace Tiers

variable {σ V ι : Type} [PolicyKeeper σ] [DecidableEq ι] {T : Tiers σ V ι}

/-- No operation of a tier fails. -/
structure Reliable (T : Tiers σ V ι) : Prop where
  fetch : ∀ {now s m} i id, T.Holds now s m → ∃ a t, (T.layer i).fetch now id s = (.ok a, t)
  store : ∀ {now s m} i id value expiry, T.Holds now s m → T.Fits id value →
    ∃ a t, (T.layer i).store now id value expiry s = (.ok a, t)
  discard : ∀ {now s m} i id, T.Holds now s m → ∃ a t, (T.layer i).discard now id s = (.ok a, t)
  upkeep : ∀ {now s m} i verb, T.Holds now s m → ∃ a t, (T.layer i).upkeep verb now s = (.ok a, t)

namespace Reliable

variable (hT : T.Reliable) {stack : Stack σ V} {is : List ι}
  (layers : stack.layers = is.map T.layer) (hnodup : is.Nodup) {now : Int64} {s : σ}
  {m : ι → ExpiringMap V}

include hT

theorem searchFrom_ok (id : String) (is : List ι) (place : Nat) (h : T.Holds now s m) :
    (searchFrom now id place (is.map T.layer) s).1.1 = [] := by
  induction is generalizing s place with
  | nil => rfl
  | cons i rest ih =>
    obtain ⟨found?, t, hok⟩ := hT.fetch i id h
    have hfetch := T.fetch i id h
    rw [hok] at hfetch
    rw [List.map_cons, searchFrom, hok]
    rcases found? with _ | ⟨value, expiry⟩
    · exact ih (place + 1) hfetch.2
    · rfl

include layers

/-- A read is answered. -/
theorem read_ok (id : String) (h : T.Holds now s m) :
    ∃ value? t, stack.read now id s = (.ok value?, t) := by
  have hnone := hT.searchFrom_ok id is 0 h
  unfold Stack.read
  rw [layers]
  generalize searchFrom now id 0 (is.map T.layer) s = searched at hnone ⊢
  obtain ⟨⟨failures, hit?⟩, t⟩ := searched
  obtain rfl : failures = [] := hnone
  cases hit? with
  | none => exact ⟨none, t, rfl⟩
  | some hit => exact ⟨_, _, rfl⟩

include hnodup

/-- **A write is in every tier.** -/
theorem writeExpiring_all {id : String} {value : V} (hfits : T.Fits id value) (expiry : Int64)
    (h : T.Holds now s m) :
    ∃ t, stack.writeExpiring now id value expiry s = (.ok (), t) ∧
      T.Holds now t (changedOn (·.set id (some (value, expiry))) is m) := by
  obtain ⟨t, ht, hholds⟩ := fanOut_all "write" Layer.label
    (fun l => l.store now id value expiry) T.layer (fun _ => ())
    (·.set id (some (value, expiry))) (fun i s m hs => by
      have hstore := T.store i id value expiry hs hfits
      obtain ⟨⟨⟩, u, hok⟩ := hT.store i id value expiry hs hfits
      rw [hok] at hstore
      exact ⟨u, hok, hstore.2⟩) hnodup h
  refine ⟨t, ?_, hholds⟩
  unfold Stack.writeExpiring
  rw [layers, Action.bind_ok ht]
  rfl

/-- **A removal is made in every tier**, and tells whether one of them had the identifier. -/
theorem remove_all (id : String) (h : T.Holds now s m) :
    ∃ t, stack.remove now id s =
        (.ok (is.any fun i => ((m i).live? now id).isSome), t) ∧
      T.Holds now t (changedOn (·.set id none) is m) := by
  obtain ⟨t, ht, hholds⟩ := fanOut_all "remove" Layer.label (fun l => l.discard now id) T.layer
    (fun x => (x.live? now id).isSome) (·.set id none) (fun i s m hs => by
      have hdiscard := T.discard i id hs
      obtain ⟨found, u, hok⟩ := hT.discard i id hs
      rw [hok] at hdiscard
      obtain ⟨rfl, hu⟩ := hdiscard
      exact ⟨u, hok, hu⟩) hnodup h
  refine ⟨t, ?_, hholds⟩
  unfold Stack.remove
  rw [layers, Action.bind_ok ht, List.any_map]
  simp only [Function.comp_def, beq_true]
  rfl

theorem upkeepLayers_all (verb : Upkeep) (h : T.Holds now s m) :
    ∃ t, stack.upkeepLayers now verb s = (.ok (), t) ∧
      T.Holds now t (changedOn (·.afterUpkeep verb) is m) := by
  obtain ⟨t, ht, hholds⟩ := fanOut_all verb.name Member.label (fun l => l.upkeep verb now)
    (Layer.member ∘ T.layer) (fun _ => ()) (·.afterUpkeep verb) (fun i s m hs => by
      have hupkeep := T.upkeep i verb hs
      obtain ⟨⟨⟩, u, hok⟩ := hT.upkeep i verb hs
      rw [hok] at hupkeep
      exact ⟨u, hok, hupkeep.2⟩) hnodup h
  refine ⟨t, ?_, hholds⟩
  unfold Stack.upkeepLayers Member.upkeepAll
  rw [layers, List.map_map, Action.bind_ok ht]
  rfl

/-- **Upkeep is carried out on every tier**, whatever is drawn. -/
theorem upkeep_all (verb : Upkeep) (h : T.Holds now s m) :
    ∃ t, stack.upkeep now verb s = (.ok (), t) ∧
      T.Holds now t (changedOn (·.afterUpkeep verb) is m) := by
  cases verb with
  | setup => exact hT.upkeepLayers_all layers hnodup .setup h
  | teardown => exact hT.upkeepLayers_all layers hnodup .teardown h
  | maintenance => exact hT.upkeepLayers_all layers hnodup .maintenance h
  | clear => exact hT.upkeepLayers_all layers hnodup .clear h
  | incremental =>
    have hdrawn := T.policy stack.ticket ((PolicyKeeper.policy stack.ticket).read s).decide.2 h
    rw [Stack.upkeep_incremental now (stack.drawEscalation_apply s)]
    -- Both kinds of upkeep that can be drawn leave the maps as they are.
    split
    · exact hT.upkeepLayers_all layers hnodup .maintenance hdrawn
    · exact hT.upkeepLayers_all layers hnodup .incremental hdrawn

end Reliable

end Tiers

end LayeredStore
