import LayeredStore.Proofs.Vault

/-! # Tiers of expiring maps

Layers of a stack that each mean an expiring map.  `Tiers` says what their operations do to
these maps: an operation is done, or it fails without effect (`Outcome`).  From that follows
what the operations of a stack do to the maps of its layers, whatever fails: a read copies
what it found into some of them (`Tiers.read_holds`), and a write, a removal or upkeep does
its work in some of them, in all of them if it succeeds (`Tiers.fanOut_holds`).
-/
namespace LayeredStore

open ExpiringMap

/-- What came of an action: a right answer and the later meaning of the state, or a failure
and the meaning it had. -/
def Outcome {σ μ ε α : Type} (holds : σ → μ → Prop) (before after : μ) (right : α → Prop) :
    Except ε α × σ → Prop
  | (.ok a, s) => right a ∧ holds s after
  | (.error _, s) => holds s before

namespace Outcome

variable {σ μ ε ε' α β : Type} {holds : σ → μ → Prop} {before middle after : μ} {right : α → Prop}

theorem mono {weaker : α → Prop} {result : Except ε α × σ}
    (h : Outcome holds before after right result) (hw : ∀ a, right a → weaker a) :
    Outcome holds before after weaker result := by
  obtain ⟨_ | a, s⟩ := result
  · exact h
  · exact ⟨hw a h.1, h.2⟩

theorem mapError {x : Action σ ε α} {s : σ} (h : Outcome holds before after right (x s))
    (f : ε → ε') : Outcome holds before after right (x.mapError f s) := by
  unfold Action.mapError
  generalize x s = result at h ⊢
  obtain ⟨_ | a, t⟩ := result <;> exact h

theorem bind {x : Action σ ε α} {s : σ} {f : α → Action σ ε β} {final : β → Prop}
    (h : Outcome holds before middle right (x s))
    (hf : ∀ a t, right a → holds t middle → Outcome holds before after final (f a t)) :
    Outcome holds before after final ((x >>= f) s) := by
  rw [Action.bind_apply]
  generalize x s = result at h ⊢
  obtain ⟨_ | a, t⟩ := result
  · exact h
  · exact hf a t h.1 h.2

/-- The state left behind means what it meant or what it should. -/
theorem either {result : Except ε α × σ} (h : Outcome holds before after right result) :
    holds result.2 before ∨ holds result.2 after := by
  obtain ⟨_ | a, s⟩ := result
  · exact .inl h
  · exact .inr h.2

end Outcome

/-- **A request of a vault is answered by its map and changes only that, or fails.** -/
theorem Vault.Holds.perform {σ ι : Type} [PolicyKeeper σ] [DecidableEq ι] {v : Vault σ ι}
    {now : Int64} {s : σ} {m : ι → ExpiringMap Bytes} (h : v.Holds now s m) (i : ι) (r : Request) :
    Outcome (v.Holds now) m (Function.update m i ((m i).after now r)) ((m i).Answers now r)
      ((v.backend i).perform r now s) := by
  generalize hresult : (v.backend i).perform r now s = result
  obtain ⟨_ | a, s'⟩ := result
  · exact h.refused hresult
  · exact h.answered hresult

/-- Layers that mean an expiring map each. -/
structure Tiers (σ V ι : Type) [PolicyKeeper σ] [DecidableEq ι] where
  /-- The layer of an index. -/
  layer : ι → Layer σ V
  /-- The live entries of the layers are those of the given maps. -/
  Holds : Int64 → σ → (ι → ExpiringMap V) → Prop
  /-- The values that can be stored under an identifier. -/
  Fits : String → V → Prop
  /-- What is live can only expire. -/
  later : ∀ {now next s m}, Holds now s m → now ≤ next → Holds next s m
  /-- What is stored fits. -/
  fits : ∀ {now s m i id e}, Holds now s m → (m i).live? now id = some e → Fits id e.1
  /-- Policies do not matter. -/
  policy : ∀ {now s m} ticket p, Holds now s m →
    Holds now ((PolicyKeeper.policy ticket).write p s) m
  /-- A fetch finds what is live. -/
  fetch : ∀ {now s m} i id, Holds now s m →
    Outcome (Holds now) m m (· = (m i).live? now id) ((layer i).fetch now id s)
  /-- A store replaces an entry. -/
  store : ∀ {now s m} i id value expiry, Holds now s m → Fits id value →
    Outcome (Holds now) m (Function.update m i ((m i).set id (some (value, expiry))))
      (fun _ => True) ((layer i).store now id value expiry s)
  /-- A discard deletes an entry and tells whether it was live. -/
  discard : ∀ {now s m} i id, Holds now s m →
    Outcome (Holds now) m (Function.update m i ((m i).set id none))
      (· = ((m i).live? now id).isSome) ((layer i).discard now id s)
  /-- Upkeep empties a map or leaves it as it is. -/
  upkeep : ∀ {now s m} i verb, Holds now s m →
    Outcome (Holds now) m (Function.update m i ((m i).afterUpkeep verb)) (fun _ => True)
      ((layer i).upkeep verb now s)

/-- The backends of a vault as layers. -/
def Vault.tiers {σ ι : Type} [PolicyKeeper σ] [DecidableEq ι] (v : Vault σ ι) :
    Tiers σ Bytes ι where
  layer i := .ofBackend (v.backend i)
  Holds := v.Holds
  Fits _ _ := True
  later h hle := h.later hle
  fits _ _ := trivial
  policy ticket p h := h.policy ticket p
  fetch {now s m} i id h := by
    refine Outcome.mapError (.bind (h.perform i (.get id)) fun value? t hvalue ht => ?_)
      StoreError.storage
    rw [after, Function.update_eq_self] at ht
    rcases hlive : (m i).live? now id with _ | ⟨value, expiry⟩ <;>
      simp only [Answers, hlive, Option.map_none, Option.map_some] at hvalue <;> subst hvalue
    · exact ⟨rfl, ht⟩
    · refine .bind (ht.perform i (.expiry id)) fun expiry? t hexpiry ht => ?_
      rw [after, Function.update_eq_self] at ht
      simp only [Answers, hlive, Option.map_some] at hexpiry
      subst hexpiry
      exact ⟨rfl, ht⟩
  store {now s m} i id value expiry h _ := by
    refine Outcome.mapError (.bind (h.perform i (.put id value expiry)) fun replaced? t _ ht => ?_)
      StoreError.storage
    exact ⟨trivial, ht⟩
  discard {now s m} i id h := by
    refine Outcome.mapError (.bind (h.perform i (.remove id)) fun removed? t hremoved ht => ?_)
      StoreError.storage
    simp only [Answers] at hremoved
    subst hremoved
    exact ⟨Option.isSome_map, ht⟩
  upkeep {now s m} i verb h := by
    have hdone := (h.perform i (.upkeep verb)).mapError StoreError.storage
    exact hdone.mono fun _ _ => trivial

/-! ### Changes in some tiers -/

/-- In some of the tiers the map was changed, elsewhere nothing was. -/
def Touched {V ι : Type} (f : ExpiringMap V → ExpiringMap V) (is : List ι)
    (m m' : ι → ExpiringMap V) : Prop :=
  ∀ i, m' i = m i ∨ i ∈ is ∧ m' i = f (m i)

namespace Touched

variable {V ι : Type} {f : ExpiringMap V → ExpiringMap V} {is : List ι} {m m' : ι → ExpiringMap V}

theorem refl (f : ExpiringMap V → ExpiringMap V) (is : List ι) (m : ι → ExpiringMap V) :
    Touched f is m m := fun _ => .inl rfl

theorem skip (i : ι) (h : Touched f is m m') : Touched f (i :: is) m m' := fun j =>
  (h j).imp_right fun ⟨hmem, hj⟩ => ⟨List.mem_cons_of_mem i hmem, hj⟩

theorem cons [DecidableEq ι] (hf : ∀ x, f (f x) = f x) {i : ι}
    (h : Touched f is (Function.update m i (f (m i))) m') : Touched f (i :: is) m m' := by
  intro j
  by_cases hj : j = i
  · subst hj
    right
    rcases h j with hsame | ⟨-, hnew⟩
    · exact ⟨List.mem_cons_self, by rw [hsame, Function.update_self]⟩
    · exact ⟨List.mem_cons_self, by rw [hnew, Function.update_self, hf]⟩
  · have hrest := h.skip i j
    rwa [Function.update_of_ne hj] at hrest

theorem of_take {n : Nat} (h : Touched f (is.take n) m m') : Touched f is m m' := fun j =>
  (h j).imp_right fun ⟨hmem, hj⟩ => ⟨List.mem_of_mem_take hmem, hj⟩

end Touched

/-! ### Stacks of tiers -/

namespace Tiers

variable {σ V ι : Type} [PolicyKeeper σ] [DecidableEq ι] (T : Tiers σ V ι) {now : Int64} {s : σ}
  {m : ι → ExpiringMap V}

/-- Attempting a change in every tier makes it in some, and in all if none fails. -/
theorem attemptEach_holds {α : Type} {act : ι → Action σ StoreError α}
    {f : ExpiringMap V → ExpiringMap V} (hf : ∀ x, f (f x) = f x)
    (hact : ∀ i s m, T.Holds now s m →
      Outcome (T.Holds now) m (Function.update m i (f (m i))) (fun _ => True) (act i s))
    (is : List ι) (h : T.Holds now s m) :
    ∃ m', T.Holds now (attemptEach act is s).2 m' ∧ Touched f is m m' ∧
      ∀ results : List α, (attemptEach act is s).1 = results.map .ok → ∀ i ∈ is, m' i = f (m i) := by
  induction is generalizing s m with
  | nil => exact ⟨m, h, .refl f [] m, fun _ _ i hi => absurd hi List.not_mem_nil⟩
  | cons i rest ih =>
    have hfirst := hact i s m h
    unfold attemptEach
    generalize act i s = first at hfirst ⊢
    obtain ⟨e | a, t⟩ := first
    · obtain ⟨m', hm', htouched, -⟩ := ih hfirst
      refine ⟨m', hm', htouched.skip i, fun results hresults => ?_⟩
      rcases results with _ | _ <;> cases hresults
    · obtain ⟨m', hm', htouched, hall⟩ := ih hfirst.2
      refine ⟨m', hm', htouched.cons hf, fun results hresults j hj => ?_⟩
      rcases results with _ | ⟨a', results⟩
      · cases hresults
      have hrest := hall results (List.cons.inj hresults).2
      by_cases hji : j = i
      · subst hji
        -- The tier may be attempted again further down; the change is the same.
        rcases htouched j with hsame | ⟨-, hagain⟩
        · rw [hsame, Function.update_self]
        · rw [hagain, Function.update_self, hf]
      · rw [hrest j ((List.mem_cons.1 hj).resolve_left hji), Function.update_of_ne hji]

/-- **A fan-out makes its change in some tiers, and in all if it succeeds.** -/
theorem fanOut_holds {α μ : Type} (operation : String) (label : μ → String)
    (act : μ → Action σ StoreError α) (g : ι → μ) (f : ExpiringMap V → ExpiringMap V)
    (hf : ∀ x, f (f x) = f x)
    (hact : ∀ i s m, T.Holds now s m →
      Outcome (T.Holds now) m (Function.update m i (f (m i))) (fun _ => True) (act (g i) s))
    (is : List ι) (h : T.Holds now s m) :
    ∃ m', T.Holds now (fanOut operation label act (is.map g) s).2 m' ∧ Touched f is m m' ∧
      ∀ results, (fanOut operation label act (is.map g) s).1 = .ok results →
        ∀ i ∈ is, m' i = f (m i) := by
  obtain ⟨m', hm', htouched, hall⟩ := T.attemptEach_holds hf hact is h
  rcases fanOut_apply operation label act (is.map g) s with ⟨results, hresults, hfan⟩ | ⟨e, hfan⟩
    <;> rw [hfan, attemptEach_map] <;> refine ⟨m', hm', htouched, fun others hothers => ?_⟩
  · rw [attemptEach_map] at hresults
    exact hall results hresults
  · cases hothers

/-- Populating stores the value in some of the tiers. -/
theorem populate_holds {id : String} {value : V} (hfits : T.Fits id value) (expiry : Int64)
    (is : List ι) (h : T.Holds now s m) :
    ∃ m', T.Holds now (populate now id value expiry (is.map T.layer) s) m' ∧
      Touched (·.set id (some (value, expiry))) is m m' := by
  induction is generalizing s m with
  | nil => exact ⟨m, h, .refl _ _ m⟩
  | cons i rest ih =>
    rcases (T.store i id value expiry h hfits).either with hsame | hstored
    · obtain ⟨m', hm', htouched⟩ := ih hsame
      exact ⟨m', hm', htouched.skip i⟩
    · obtain ⟨m', hm', htouched⟩ := ih hstored
      exact ⟨m', hm', htouched.cons fun x => set_set x id _⟩

/-- A search finds what is live in one of the tiers; it finds nothing, and none fails, only
where nothing is live. -/
theorem searchFrom_holds (id : String) (is : List ι) (place : Nat) (h : T.Holds now s m) :
    T.Holds now (searchFrom now id place (is.map T.layer) s).2 m ∧
      (∀ hit, (searchFrom now id place (is.map T.layer) s).1.2 = some hit →
        ∃ i ∈ is, (m i).live? now id = some (hit.value, hit.expiry)) ∧
      ((searchFrom now id place (is.map T.layer) s).1 = ([], none) →
        ∀ i ∈ is, (m i).live? now id = none) := by
  induction is generalizing s place with
  | nil => exact ⟨h, nofun, fun _ i hi => absurd hi List.not_mem_nil⟩
  | cons i rest ih =>
    have hfetch := T.fetch i id h
    simp only [List.map_cons, searchFrom]
    generalize (T.layer i).fetch now id s = fetched at hfetch ⊢
    obtain ⟨e | _ | ⟨value, expiry⟩, t⟩ := fetched
    -- A tier that fails is passed over, but then nothing is said about misses.
    · obtain ⟨hholds, hhit, -⟩ := ih (place + 1) hfetch
      refine ⟨hholds, fun hit hfound => ?_, fun hnone => by cases hnone⟩
      obtain ⟨j, hj, hlive⟩ := hhit hit hfound
      exact ⟨j, List.mem_cons_of_mem i hj, hlive⟩
    · obtain ⟨hholds, hhit, hmiss⟩ := ih (place + 1) hfetch.2
      refine ⟨hholds, fun hit hfound => ?_, fun hnone j hj => ?_⟩
      · obtain ⟨j, hj, hlive⟩ := hhit hit hfound
        exact ⟨j, List.mem_cons_of_mem i hj, hlive⟩
      · rcases List.mem_cons.1 hj with rfl | hj
        · exact hfetch.1.symm
        · exact hmiss hnone j hj
    · refine ⟨hfetch.2, fun hit hfound => ?_, fun hnone => by cases hnone⟩
      obtain rfl := Option.some.inj hfound
      exact ⟨i, List.mem_cons_self, hfetch.1.symm⟩

end Tiers

end LayeredStore
