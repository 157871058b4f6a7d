import LayeredStore.Proofs.Caching
import LayeredStore.Proofs.Handles

/-! # Layers that agree

Two layers agree on an identifier if they have one entry of it, or one of them has none.
Reads, removals and upkeep keep that, whatever fails: they only copy and take away
(`Agree.found`, `Agree.touched`).  A write that succeeds establishes it (`Agree.all`), and
one that fails on every layer changes nothing (`Tiers.fanOut_refused`).  Only a write that
reaches some layers and not others can break it, and that is reported.  So whether a stack is
sure to agree can be told from what it answers (`stillSettled`, `Tiers.Settled`).

A layer behind a gate fails without effect whenever the gate says so (`Layer.guarded`).
-/
namespace LayeredStore

open ExpiringMap

/-! ### Gates -/

/-- The action behind a gate, which may refuse it before it has any effect. -/
def Action.gated {σ ε α : Type} (gate : σ → Option ε × σ) (x : Action σ ε α) : Action σ ε α :=
  fun s =>
    match gate s with
    | (some e, t) => (.error e, t)
    | (none, t) => x t

theorem Outcome.gated {σ μ ε α : Type} {holds : σ → μ → Prop} {before after : μ} {right : α → Prop}
    {gate : σ → Option ε × σ} {x : Action σ ε α} {s : σ} (hgate : holds (gate s).2 before)
    (hx : ∀ t, holds t before → Outcome holds before after right (x t)) :
    Outcome holds before after right (x.gated gate s) := by
  unfold Action.gated
  generalize gate s = gated at hgate
  obtain ⟨_ | e, t⟩ := gated
  · exact hx t hgate
  · exact hgate

/-- The layer behind a gate, which may refuse any request. -/
def Layer.guarded {σ V : Type} (gate : LayerRequest V → Int64 → σ → Option StoreError × σ)
    (l : Layer σ V) : Layer σ V where
  label := l.label
  fetch now id := (l.fetch now id).gated (gate (.fetch id) now)
  store now id value expiry := (l.store now id value expiry).gated (gate (.store id value expiry) now)
  discard now id := (l.discard now id).gated (gate (.discard id) now)
  upkeep verb now := (l.upkeep verb now).gated (gate (.upkeep verb) now)

/-- Tiers behind gates are tiers. -/
def Tiers.guarded {σ V ι : Type} [PolicyKeeper σ] [DecidableEq ι] (T : Tiers σ V ι)
    (gate : ι → LayerRequest V → Int64 → σ → Option StoreError × σ)
    (hgate : ∀ i r time now s m, T.Holds now s m → T.Holds now (gate i r time s).2 m) :
    Tiers σ V ι where
  layer i := (T.layer i).guarded (gate i)
  Holds := T.Holds
  Fits := T.Fits
  later := T.later
  fits := T.fits
  policy := T.policy
  fetch i id h := .gated (hgate i _ _ _ _ _ h) fun _ ht => T.fetch i id ht
  store i id value expiry h hfits :=
    .gated (hgate i _ _ _ _ _ h) fun _ ht => T.store i id value expiry ht hfits
  discard i id h := .gated (hgate i _ _ _ _ _ h) fun _ ht => T.discard i id ht
  upkeep i verb h := .gated (hgate i _ _ _ _ _ h) fun _ ht => T.upkeep i verb ht

/-! ### Fan-outs that fail -/

section

variable {ι α : Type}

theorem length_failuresFrom_le (label : ι → String) (place : Nat) (members : List ι)
    (outcomes : List (Except StoreError α)) :
    (failuresFrom label place members outcomes).length ≤ members.length := by
  induction members generalizing place outcomes with
  | nil => cases outcomes <;> exact Nat.le_refl 0
  | cons m rest ih =>
    rcases outcomes with _ | ⟨_ | _, outcomes⟩
    · exact Nat.zero_le _
    · have hrest := ih (place + 1) outcomes
      rw [failuresFrom, List.length_cons, List.length_cons]
      omega
    · have hrest := ih (place + 1) outcomes
      rw [failuresFrom, List.length_cons]
      omega

/-- As many failures as members mean that no member succeeded. -/
theorem forall_error_of_length_failuresFrom {label : ι → String} {place : Nat} {members : List ι}
    {outcomes : List (Except StoreError α)} (hlength : outcomes.length = members.length)
    (h : (failuresFrom label place members outcomes).length = members.length) :
    ∀ outcome ∈ outcomes, ∃ e, outcome = .error e := by
  induction members generalizing place outcomes with
  | nil =>
    rw [List.length_eq_zero_iff.1 hlength]
    exact nofun
  | cons m rest ih =>
    obtain ⟨outcome, outcomes, rfl⟩ := List.exists_cons_of_length_eq_add_one hlength
    cases outcome with
    | ok a =>
      have hle := length_failuresFrom_le label (place + 1) rest outcomes
      rw [failuresFrom, List.length_cons] at h
      omega
    | error e =>
      rw [failuresFrom, List.length_cons, List.length_cons] at h
      exact List.forall_mem_cons.2 ⟨⟨e, rfl⟩, ih (Nat.succ.inj hlength) (Nat.succ.inj h)⟩

end

namespace Tiers

variable {σ V ι : Type} [PolicyKeeper σ] [DecidableEq ι] (T : Tiers σ V ι) {now : Int64} {s : σ}
  {m : ι → ExpiringMap V}

theorem attemptEach_refused {α : Type} {act : ι → Action σ StoreError α}
    {f : ExpiringMap V → ExpiringMap V}
    (hact : ∀ i s m, T.Holds now s m →
      Outcome (T.Holds now) m (Function.update m i (f (m i))) (fun _ => True) (act i s))
    {is : List ι} (h : T.Holds now s m)
    (hall : ∀ outcome ∈ (attemptEach act is s).1, ∃ e, outcome = .error e) :
    T.Holds now (attemptEach act is s).2 m := by
  induction is generalizing s with
  | nil => exact h
  | cons i rest ih =>
    have hfirst := hact i s m h
    unfold attemptEach at hall ⊢
    generalize act i s = first at hfirst hall ⊢
    obtain ⟨e | a, t⟩ := first
    · exact ih hfirst fun outcome hmem => hall outcome (List.mem_cons_of_mem _ hmem)
    · obtain ⟨e, he⟩ := hall _ List.mem_cons_self
      cases he

/-- **A fan-out that fails says of how many members**, and nothing is changed if that is all
of them. -/
theorem fanOut_refused {α μ : Type} (operation : String) (label : μ → String)
    (act : μ → Action σ StoreError α) (g : ι → μ) (f : ExpiringMap V → ExpiringMap V)
    (hact : ∀ i s m, T.Holds now s m →
      Outcome (T.Holds now) m (Function.update m i (f (m i))) (fun _ => True) (act (g i) s))
    {is : List ι} (h : T.Holds now s m) {e : StoreError} {t : σ}
    (hfan : fanOut operation label act (is.map g) s = (.error e, t)) :
    ∃ failures, e = .partialFailure operation is.length failures ∧
      (failures.length = is.length → T.Holds now t m) := by
  have hlength := length_attemptEach act (is.map g) s
  have hrefused : (∀ outcome ∈ (attemptEach (fun i => act (g i)) is s).1, ∃ e, outcome = .error e) →
      T.Holds now (attemptEach (fun i => act (g i)) is s).2 m := T.attemptEach_refused hact h
  rw [← attemptEach_map] at hrefused
  unfold fanOut at hfan
  generalize attemptEach act (is.map g) s = attempts at hlength hrefused hfan
  obtain ⟨outcomes, u⟩ := attempts
  have hfailures : (failuresFrom label 0 (is.map g) outcomes).length = (is.map g).length →
      ∀ outcome ∈ outcomes, ∃ e, outcome = .error e := forall_error_of_length_failuresFrom hlength
  dsimp only at hfan
  generalize failuresFrom label 0 (is.map g) outcomes = failures at hfan hfailures
  rcases failures with _ | ⟨failure, failures⟩
  · cases hfan
  · cases hfan
    rw [List.length_map] at hfailures ⊢
    exact ⟨_, rfl, fun hall => hrefused (hfailures hall)⟩

end Tiers

/-! ### Updates -/

/-- An update fails as its read does, or comes to the write of what is derived. -/
theorem Stack.update_cases {σ V : Type} (stack : Stack σ V) (now : Int64) (id : String)
    (derive : Option V → V) (s : σ) :
    (∃ failures, stack.update now id derive s =
      (.error (.partialFailure "read" stack.layers.length failures), (stack.read now id s).2)) ∨
    ∃ current? t, stack.read now id s = (.ok current?, t) ∧
      stack.update now id derive s =
        match stack.writeExpiring now id (derive current?) (expiryAfter now stack.lifespan) t with
        | (.ok _, u) => (.ok (derive current?), u)
        | (.error e, u) => (.error e, u) := by
  have hupdate : stack.update now id derive = (stack.read now id >>= fun current? =>
      stack.write now id (derive current?) >>= fun _ => pure (derive current?)) := rfl
  rw [hupdate]
  rcases hread : stack.read now id s with ⟨e | current?, t⟩
  · rw [Action.bind_error hread]
    unfold Stack.read at hread
    split at hread
    · cases hread
    · cases hread
    · cases hread
      exact .inl ⟨_, rfl⟩
  · rw [Action.bind_ok hread, Action.bind_apply, Stack.write]
    refine .inr ⟨current?, t, rfl, ?_⟩
    rcases stack.writeExpiring now id (derive current?) _ t with ⟨_ | _, u⟩ <;> rfl

/-! ### Agreement -/

/-- The layers that have a live entry of an identifier have one and the same. -/
def Agree {V ι : Type} (now : Int64) (is : List ι) (m : ι → ExpiringMap V) (id : String) : Prop :=
  ∀ i ∈ is, ∀ j ∈ is, ∀ a b, (m i).live? now id = some a → (m j).live? now id = some b → a = b

namespace Agree

variable {V ι : Type} {now : Int64} {is : List ι} {m m' : ι → ExpiringMap V} {id : String}

theorem later {next : Int64} (h : Agree now is m id) (hle : now ≤ next) : Agree next is m id := by
  intro i hi j hj a b ha hb
  rw [live?_later hle] at ha hb
  exact h i hi j hj a b (Option.filter_eq_some_iff.1 ha).1 (Option.filter_eq_some_iff.1 hb).1

/-- Entries that are left alone or taken away. -/
theorem touched (h : Agree now is m id) {f : ExpiringMap V → ExpiringMap V}
    (hf : ∀ x, (f x).live? now id = none ∨ (f x).live? now id = x.live? now id)
    (ht : Touched f is m m') : Agree now is m' id := by
  have hold : ∀ i a, (m' i).live? now id = some a → (m i).live? now id = some a := by
    intro i a ha
    rcases ht i with hsame | ⟨-, hnew⟩
    · rwa [← hsame]
    · rw [hnew] at ha
      rcases hf (m i) with hnone | hkept
      · rw [hnone] at ha
        cases ha
      · rwa [← hkept]
  intro i hi j hj a b ha hb
  exact h i hi j hj a b (hold i a ha) (hold j b hb)

/-- One entry, or none, in every layer. -/
theorem all {f : ExpiringMap V → ExpiringMap V}
    (hf : ∀ x y, (f x).live? now id = (f y).live? now id) (hall : ∀ i ∈ is, m' i = f (m i)) :
    Agree now is m' id := by
  intro i hi j hj a b ha hb
  rw [hall i hi] at ha
  rw [hall j hj, hf (m j) (m i), ha] at hb
  exact Option.some.inj hb

/-- **A read copies what all agree on.** -/
theorem found {answer : Except StoreError (Option V)} (h : Agree now is m id)
    (hfound : Found now id is m answer m') : Agree now is m' id := by
  cases hfound with
  | failed e => exact h
  | miss _ => exact h
  | @hit i e _ hi hlive ht =>
    have hentry : ∀ j ∈ is, ∀ a, (m' j).live? now id = some a → a = e := by
      intro j hj a ha
      rcases ht j with hsame | ⟨-, hnew⟩
      · rw [hsame] at ha
        exact h j hj i hi a e ha hlive
      · rw [hnew, live?_set_self] at ha
        exact (Option.some.inj (Option.filter_eq_some_iff.1 ha).1).symm
    intro j hj k hk a b ha hb
    rw [hentry j hj a ha, hentry k hk b hb]

theorem found_of_ne {other : String} (hne : id ≠ other) {answer : Except StoreError (Option V)}
    (h : Agree now is m id) (hfound : Found now other is m answer m') : Agree now is m' id := by
  cases hfound with
  | failed e => exact h
  | miss _ => exact h
  | hit _ _ ht => exact h.touched (fun x => .inr (live?_set_of_ne x now hne _)) ht

end Agree

/-- A cache agrees with what it copies. -/
theorem Caches.agree {V ι : Type} {now : Int64} {is : List ι} {lowest : ι} {m : ι → ExpiringMap V}
    {target : ExpiringMap V} {id : String} (h : Caches now is lowest m target id) :
    Agree now is m id := by
  have htarget : ∀ i ∈ is, ∀ a, (m i).live? now id = some a → target.live? now id = some a := by
    intro i hi a ha
    rcases h.copies i hi with hnone | hcopy
    · rw [hnone] at ha
      cases ha
    · rwa [← hcopy]
  intro i hi j hj a b ha hb
  exact Option.some.inj ((htarget i hi a ha).symm.trans (htarget j hj b hb))

/-! ### Settled stacks -/

/-- Whether upkeep takes every entry away. -/
def Upkeep.empties : Upkeep → Bool
  | .teardown | .clear => true
  | .setup | .maintenance | .incremental => false

/-- The error reports a write that reached some layers and failed on others. -/
def StoreError.isSplit : StoreError → Bool
  | .partialFailure operation attempted failures =>
    operation == "write" && failures.length != attempted
  | _ => false

/-- Whether layers are still sure to agree after a write with an outcome: if it succeeded,
and if they were and it was not split. -/
def stillSettled {α : Type} (settled : Bool) : Except StoreError α → Bool
  | .ok _ => true
  | .error e => settled && !e.isSplit

namespace Tiers

variable {σ V ι : Type} [PolicyKeeper σ] [DecidableEq ι]

/-- What a store of a value under an identifier leaves there, unless it fails. -/
def Stores (T : Tiers σ V ι) (now : Int64) (id : String) (value : V) (expiry : Int64) (kept : V) :
    Prop :=
  ∀ i s m, T.Holds now s m →
    Outcome (T.Holds now) m (Function.update m i ((m i).set id (some (kept, expiry))))
      (fun _ => True) ((T.layer i).store now id value expiry s)

/-- The layers mean some maps, which agree on an identifier if they are sure to. -/
def Settled (T : Tiers σ V ι) (now : Int64) (is : List ι) (id : String) (settled : Bool) (s : σ) :
    Prop :=
  ∃ m, T.Holds now s m ∧ (settled = true → Agree now is m id)

variable {T : Tiers σ V ι} {stack : Stack σ V} {is : List ι} {id : String} {now : Int64} {s : σ}
  {settled : Bool} {value kept : V} {expiry : Int64}

theorem Settled.later {next : Int64} (h : T.Settled now is id settled s) (hle : now ≤ next) :
    T.Settled next is id settled s := by
  obtain ⟨m, hm, hagree⟩ := h
  exact ⟨m, T.later hm hle, fun hsettled => (hagree hsettled).later hle⟩

/-- Being less sure is allowed. -/
theorem Settled.mono {less : Bool} (h : T.Settled now is id settled s)
    (hless : less = true → settled = true) : T.Settled now is id less s := by
  obtain ⟨m, hm, hagree⟩ := h
  exact ⟨m, hm, fun hsettled => hagree (hless hsettled)⟩

section

variable (layers : stack.layers = is.map T.layer)
include layers

/-- **A write stores in every layer, or is reported to have failed on some**, and changes
nothing if these are all. -/
theorem Stores.write_holds (hstores : T.Stores now id value expiry kept) {m : ι → ExpiringMap V}
    (h : T.Holds now s m) :
    ∃ m', T.Holds now (stack.writeExpiring now id value expiry s).2 m' ∧
      Touched (·.set id (some (kept, expiry))) is m m' ∧
      match (stack.writeExpiring now id value expiry s).1 with
      | .ok _ => ∀ i ∈ is, m' i = (m i).set id (some (kept, expiry))
      | .error e => ∃ failures, e = .partialFailure "write" is.length failures ∧
        (failures.length = is.length → m' = m) := by
  have hact := fun i s m hs => hstores i s m hs
  unfold Stack.writeExpiring
  rw [layers]
  rcases hfan : fanOut "write" Layer.label (fun l => l.store now id value expiry)
      (is.map T.layer) s with ⟨e | results, t⟩
  · rw [Action.bind_error hfan]
    obtain ⟨failures, rfl, hnone⟩ := T.fanOut_refused "write" Layer.label
      (fun l => l.store now id value expiry) T.layer (·.set id (some (kept, expiry))) hact h hfan
    obtain ⟨m', hm', htouched, -⟩ := T.fanOut_holds "write" Layer.label
      (fun l => l.store now id value expiry) T.layer (·.set id (some (kept, expiry)))
      (fun x => set_set x id _) hact is h
    rw [hfan] at hm'
    by_cases hall : failures.length = is.length
    · exact ⟨m, hnone hall, .refl _ is m, failures, rfl, fun _ => rfl⟩
    · exact ⟨m', hm', htouched, failures, rfl, fun h => absurd h hall⟩
  · rw [Action.bind_ok hfan]
    obtain ⟨m', hm', htouched, hall⟩ := T.fanOut_holds "write" Layer.label
      (fun l => l.store now id value expiry) T.layer (·.set id (some (kept, expiry)))
      (fun x => set_set x id _) hact is h
    rw [hfan] at hm' hall
    exact ⟨m', hm', htouched, hall results rfl⟩

namespace Settled

variable (h : T.Settled now is id settled s)
include h

/-- A read of any identifier. -/
theorem read (other : String) : T.Settled now is id settled (stack.read now other s).2 := by
  obtain ⟨m, hm, hagree⟩ := h
  obtain ⟨m', hm', hfound⟩ := T.read_holds layers other hm
  refine ⟨m', hm', fun hsettled => ?_⟩
  by_cases hid : id = other
  · subst hid
    exact (hagree hsettled).found hfound
  · exact (hagree hsettled).found_of_ne hid hfound

/-- What is read fits. -/
theorem fits_read {other : String} {current? : Option V} {t : σ}
    (hok : stack.read now other s = (.ok current?, t)) : ∀ value ∈ current?, T.Fits other value := by
  obtain ⟨m, hm, -⟩ := h
  obtain ⟨m', -, hfound⟩ := T.read_holds layers other hm
  rw [hok] at hfound
  intro value hvalue
  cases hfound with
  | hit _ hlive _ =>
    obtain rfl := Option.some.inj hvalue
    exact T.fits hm hlive
  | miss _ => cases hvalue

/-- **A write of the identifier settles the layers, or fails on all of them, or is split.** -/
theorem write {other : String} (hstores : T.Stores now other value expiry kept) :
    T.Settled now is id
      (if other = id then stillSettled settled (stack.writeExpiring now other value expiry s).1
        else settled)
      (stack.writeExpiring now other value expiry s).2 := by
  obtain ⟨m, hm, hagree⟩ := h
  obtain ⟨m', hm', htouched, hwritten⟩ := hstores.write_holds layers hm
  refine ⟨m', hm', fun hstill => ?_⟩
  by_cases hid : other = id
  · subst hid
    rw [if_pos rfl] at hstill
    generalize stack.writeExpiring now other value expiry s = written at hwritten hstill
    obtain ⟨e | _, t⟩ := written
    · obtain ⟨failures, rfl, hnone⟩ := hwritten
      obtain ⟨hsettled, hwhole⟩ := Bool.and_eq_true_iff.1 hstill
      have hall : failures.length = is.length := by simpa [StoreError.isSplit] using hwhole
      rw [hnone hall]
      exact hagree hsettled
    · have hset : ∀ x y : ExpiringMap V, (x.set other (some (kept, expiry))).live? now other =
          (y.set other (some (kept, expiry))).live? now other := by
        intro x y
        rw [live?_set_self, live?_set_self]
      exact .all hset hwritten
  · rw [if_neg hid] at hstill
    exact (hagree hstill).touched (fun x => .inr (live?_set_of_ne x now (Ne.symm hid) _)) htouched

/-- **An update settles the layers as a write does.** -/
theorem update {other : String} {derive kept : Option V → V}
    (hstores : ∀ current?, (∀ value ∈ current?, T.Fits other value) → T.Stores now other
      (derive current?) (expiryAfter now stack.lifespan) (kept current?)) :
    T.Settled now is id
      (if other = id then stillSettled settled (stack.update now other derive s).1 else settled)
      (stack.update now other derive s).2 := by
  have hread := h.read layers other
  rcases stack.update_cases now other derive s with ⟨_, hfailed⟩ | ⟨current?, t, hok, hupdate⟩
  · rw [hfailed]
    refine hread.mono fun hstill => ?_
    by_cases hid : other = id
    · rw [if_pos hid] at hstill
      exact (Bool.and_eq_true_iff.1 hstill).1
    · rwa [if_neg hid] at hstill
  · have hfits := h.fits_read layers hok
    rw [hok] at hread
    have hwrite := hread.write layers (hstores current? hfits)
    rw [hupdate]
    generalize stack.writeExpiring now other _ _ t = written at hwrite ⊢
    obtain ⟨e | _, u⟩ := written <;> exact hwrite

/-- A removal of the identifier settles the layers if it succeeds, and none unsettles them. -/
theorem remove (other : String) :
    T.Settled now is id
      (if other = id then settled || (stack.remove now other s).1.isOk else settled)
      (stack.remove now other s).2 := by
  obtain ⟨m, hm, hagree⟩ := h
  obtain ⟨m', hm', htouched, hall⟩ := T.remove_holds layers other hm
  refine ⟨m', hm', fun hsettles => ?_⟩
  by_cases hid : other = id
  · subst hid
    have hnone : ∀ x : ExpiringMap V, (x.set other none).live? now other = none := by
      intro x
      rw [live?_set_self, Option.filter_none]
    rw [if_pos rfl] at hsettles
    rcases Bool.or_eq_true_iff.1 hsettles with hsettled | hok
    · exact (hagree hsettled).touched (fun x => .inl (hnone x)) htouched
    · generalize (stack.remove now other s).1 = outcome at hall hok
      cases outcome with
      | error e => cases hok
      | ok found => exact .all (fun x y => (hnone x).trans (hnone y).symm) (hall found rfl)
  · rw [if_neg hid] at hsettles
    exact (hagree hsettles).touched (fun x => .inr (live?_set_of_ne x now (Ne.symm hid) _)) htouched

/-- Upkeep that empties the layers settles them, and none unsettles them. -/
theorem upkeep (verb : Upkeep) :
    T.Settled now is id (settled || (verb.empties && (stack.upkeep now verb s).1.isOk))
      (stack.upkeep now verb s).2 := by
  obtain ⟨m, hm, hagree⟩ := h
  obtain ⟨m', hm', htouched, hall⟩ := T.upkeep_holds layers verb hm
  refine ⟨m', hm', fun hsettles => ?_⟩
  rcases Bool.or_eq_true_iff.1 hsettles with hsettled | hemptied
  · refine (hagree hsettled).touched (fun x => ?_) htouched
    cases verb with
    | teardown | clear => exact .inl rfl
    | setup | maintenance | incremental => exact .inr rfl
  · obtain ⟨hempties, hok⟩ := Bool.and_eq_true_iff.1 hemptied
    generalize (stack.upkeep now verb s).1 = outcome at hall hok
    cases outcome with
    | error e => cases hok
    | ok _ =>
      have hempty : ∀ x y : ExpiringMap V,
          (x.afterUpkeep verb).live? now id = (y.afterUpkeep verb).live? now id := by
        intro x y
        cases verb with
        | teardown | clear => rfl
        | setup | maintenance | incremental => cases hempties
      exact .all hempty (hall rfl)

end Settled

/-- **Where layers agree, an update that succeeds derives from what any of them has**, and
leaves one entry in all of them. -/
theorem update_agreed {m : ι → ExpiringMap V} (hm : T.Holds now s m) (hagree : Agree now is m id)
    {derive kept : Option V → V}
    (hstores : ∀ current?, (∀ value ∈ current?, T.Fits id value) → T.Stores now id
      (derive current?) (expiryAfter now stack.lifespan) (kept current?))
    {answer : V} {t : σ} (hupdate : stack.update now id derive s = (.ok answer, t)) :
    ∃ current? m', answer = derive current? ∧
      (∀ i ∈ is, ∀ e, (m i).live? now id = some e → current? = some e.1) ∧
      T.Holds now t m' ∧ ∀ i ∈ is, (m' i).live? now id =
        (some (kept current?, expiryAfter now stack.lifespan)).filter fun e => !isExpired e.2 now := by
  rcases stack.update_cases now id derive s with ⟨_, hfailed⟩ | ⟨current?, u, hok, hwrite⟩
  · rw [hfailed] at hupdate
    cases hupdate
  · obtain ⟨m₁, hm₁, hfound⟩ := T.read_holds layers id hm
    have hsettled : T.Settled now is id true s := ⟨m, hm, fun _ => hagree⟩
    have hfits := hsettled.fits_read layers hok
    rw [hok] at hm₁ hfound
    obtain ⟨m', hm', -, hwritten⟩ := (hstores current? hfits).write_holds layers hm₁
    rw [hwrite] at hupdate
    generalize stack.writeExpiring now id _ _ u = written at hm' hwritten hupdate
    obtain ⟨e | _, w⟩ := written <;> cases hupdate
    refine ⟨current?, m', rfl, fun i hi e he => ?_, hm', fun i hi => ?_⟩
    · cases hfound with
      | hit hj hlive _ => rw [hagree _ hj i hi _ e hlive he]
      | miss hmiss =>
        rw [hmiss i hi] at he
        cases he
    · rw [hwritten i hi, live?_set_self]

end

end Tiers

end LayeredStore
