import LayeredStore.Catalog
import LayeredStore.Proofs.FailureReports
import LayeredStore.Proofs.Footprints

/-! # Calls to groups

Writes and removals of a stack, removals of a table, and every verb of upkeep, whether through
a coordinator, a table, a stack or a catalog, are calls to the members of a group
(`GroupCall`).  The loops behind them come to the same: a call is its shares, one for each
member, carried out together (`GroupCall.perform_eq`).  Every share is attempted once, in
order (`Attempts`), and the result tells exactly which of them failed (`reported`).

Where members work on parts of the state that are their own, what is done to one does not
depend on the others, so each ends up as if it had been called alone (`attemptEach_alone`).
-/
namespace LayeredStore

/-! ### Shares -/

/-- What a call does for one member.  The answer of a removal is whether the member held a
live entry; of other calls it is false. -/
structure Share (σ : Type) where
  /-- The member's name in failure reports. -/
  label : String
  /-- The call to this member. -/
  attempt : Action σ StoreError Bool

/-- Attempts in order, each from the state that the one before it left, with their outcomes. -/
inductive Attempts {σ : Type} : List (Share σ) → σ → List (Except StoreError Bool) → σ → Prop
  | nil (s : σ) : Attempts [] s [] s
  | cons {m : Share σ} {rest : List (Share σ)} {s t u : σ} {outcome : Except StoreError Bool}
      {outcomes : List (Except StoreError Bool)} (first : m.attempt s = (outcome, t))
      (others : Attempts rest t outcomes u) : Attempts (m :: rest) s (outcome :: outcomes) u

/-- The result tells which of the shares failed, and of a removal whether some member held
a live entry. -/
structure Reported {σ : Type} (operation : String) (shares : List (Share σ))
    (outcomes : List (Except StoreError Bool)) (result : Except StoreError Bool) : Prop where
  /-- It is a success just when no share failed. -/
  ok_iff : (∃ found, result = .ok found) ↔ ∀ outcome ∈ outcomes, ∃ found, outcome = .ok found
  /-- A failure lists exactly the shares that failed, in order, each with its own error. -/
  failed : ∀ e, result = .error e → ∃ failures, e = .partialFailure operation shares.length failures ∧
    Ascending 0 shares.length failures ∧
    ∀ f, f ∈ failures ↔ ∃ i m cause, shares[i]? = some m ∧ outcomes[i]? = some (.error cause) ∧
      f = ⟨i, m.label, cause⟩
  /-- The answer is whether some share answered so. -/
  found : ∀ found, result = .ok found → (found = true ↔ .ok true ∈ outcomes)

section

variable {σ : Type}

/-- Carry out all shares. -/
def Share.together (operation : String) (shares : List (Share σ)) : Action σ StoreError Bool := do
  let found ← fanOut operation Share.label Share.attempt shares
  pure (found.any id)

theorem attempts_attemptEach (shares : List (Share σ)) (s : σ) :
    Attempts shares s (attemptEach Share.attempt shares s).1
      (attemptEach Share.attempt shares s).2 := by
  induction shares generalizing s with
  | nil => exact .nil s
  | cons m rest ih => exact .cons rfl (ih _)

theorem Share.together_eq (operation : String) (shares : List (Share σ)) (s : σ) :
    together operation shares s =
      ((reportOf operation Share.label shares (attemptEach Share.attempt shares s).1).map
          (·.any id),
        (attemptEach Share.attempt shares s).2) := by
  unfold together
  rw [fanOut_eq]
  simp only [Action.bind_apply, attempts, Action.ofExcept]
  cases reportOf operation Share.label shares (attemptEach Share.attempt shares s).1 <;> rfl

theorem mem_resultsOf {α : Type} {outcomes : List (Except StoreError α)} {a : α} :
    a ∈ resultsOf outcomes ↔ .ok a ∈ outcomes := by
  induction outcomes with
  | nil => simp [resultsOf]
  | cons outcome rest ih => cases outcome <;> simp [resultsOf, ih]

/-- **The report is right.** -/
theorem reported {operation : String} {shares : List (Share σ)}
    {outcomes : List (Except StoreError Bool)} (hlength : outcomes.length = shares.length) :
    Reported operation shares outcomes
      ((reportOf operation Share.label shares outcomes).map (·.any id)) := by
  have hiff : failuresFrom Share.label 0 shares outcomes = [] ↔ _ := failuresFrom_eq_nil_iff hlength
  have hnone : failuresFrom Share.label 0 shares outcomes = [] ↔
      ∀ outcome ∈ outcomes, ∃ found, outcome = .ok found := by
    rw [hiff]
    constructor
    · intro hall outcome houtcome
      rw [hall] at houtcome
      obtain ⟨found, -, rfl⟩ := List.mem_map.1 houtcome
      exact ⟨found, rfl⟩
    · intro hall
      rw [← hiff]
      refine List.eq_nil_iff_forall_not_mem.2 fun f hf => ?_
      obtain ⟨i, m, e, -, he, -⟩ := mem_failuresFrom.1 hf
      obtain ⟨found, hfound⟩ := hall _ (List.mem_of_getElem? he)
      cases hfound
  have hplaces := failuresFrom_ascending Share.label 0 shares outcomes
  have hmem : ∀ f, f ∈ failuresFrom Share.label 0 shares outcomes ↔ _ := fun f => mem_failuresFrom
  simp only [Nat.zero_add] at hplaces hmem
  unfold reportOf
  generalize failuresFrom Share.label 0 shares outcomes = failures at hnone hplaces hmem ⊢
  cases failures with
  | nil =>
    refine ⟨⟨fun _ => hnone.1 rfl, fun _ => ⟨_, rfl⟩⟩, nofun, ?_⟩
    rintro found hfound
    obtain rfl := Except.ok.inj hfound
    rw [← mem_resultsOf, List.any_eq_true]
    constructor
    · rintro ⟨answer, hanswer, htrue⟩
      obtain rfl : answer = true := htrue
      exact hanswer
    · intro htrue
      exact ⟨true, htrue, rfl⟩
  | cons f rest =>
    refine ⟨⟨nofun, fun hall => ?_⟩, fun e he => ?_, nofun⟩
    · cases hnone.2 hall
    · cases he
      exact ⟨f :: rest, rfl, hplaces, hmem⟩

end

/-! ### Fan-outs as shares -/

/-- An answer may be changed before the error or after it. -/
theorem Action.mapError_bind_pure {σ ε ε' α β : Type} (x : Action σ ε α) (e : ε → ε') (f : α → β) :
    (x >>= fun a => pure (f a)).mapError e = x.mapError e >>= fun a => pure (f a) := by
  funext s
  simp only [Action.mapError, Action.bind_apply]
  rcases x s with ⟨_ | _, t⟩ <;> rfl

section

variable {σ ι α : Type} (act : ι → Action σ StoreError α) (f : α → Bool)

/-- A change of what is answered changes the outcomes and nothing else. -/
theorem attemptEach_answer (members : List ι) (s : σ) :
    attemptEach (fun m => act m >>= fun a => (pure (f a) : Action σ StoreError Bool)) members s =
      ((attemptEach act members s).1.map (Except.map f), (attemptEach act members s).2) := by
  induction members generalizing s with
  | nil => rfl
  | cons m rest ih =>
    rcases hfirst : act m s with ⟨e | a, t⟩
    · simp only [attemptEach, Action.bind_error hfirst, hfirst, ih]
      rfl
    · simp only [attemptEach, Action.bind_ok hfirst, hfirst, ih]
      rfl

theorem failuresFrom_map {κ : Type} (label : κ → String) (g : ι → κ) (place : Nat)
    (members : List ι) (outcomes : List (Except StoreError α)) :
    failuresFrom label place (members.map g) (outcomes.map (Except.map f)) =
      failuresFrom (fun m => label (g m)) place members outcomes := by
  induction members generalizing place outcomes with
  | nil => rfl
  | cons m rest ih =>
    rcases outcomes with _ | ⟨_ | _, outcomes⟩
    · rfl
    · exact congrArg (List.cons _) (ih (place + 1) outcomes)
    · exact ih (place + 1) outcomes

theorem resultsOf_map (outcomes : List (Except StoreError α)) :
    resultsOf (outcomes.map (Except.map f)) = (resultsOf outcomes).map f := by
  induction outcomes with
  | nil => rfl
  | cons outcome rest ih =>
    cases outcome with
    | ok a => exact congrArg (List.cons _) ih
    | error e => exact ih

/-- A fan-out whose results are looked through is shares carried out together. -/
theorem fanOut_any (operation : String) (label : ι → String) (members : List ι) (s : σ) :
    (fanOut operation label act members >>= fun results =>
        (pure (results.any f) : Action σ StoreError Bool)) s =
      Share.together operation
        (members.map fun m => ⟨label m, act m >>= fun a => pure (f a)⟩) s := by
  rw [Share.together_eq, attemptEach_map, attemptEach_answer, fanOut_eq]
  unfold reportOf
  simp only [Action.bind_apply, attempts, Action.ofExcept, failuresFrom_map, resultsOf_map,
    List.length_map]
  generalize failuresFrom label 0 members (attemptEach act members s).1 = failures
  cases failures with
  | nil => simp [Except.map, List.any_map]
  | cons failure rest => rfl

/-- A fan-out whose results do not matter is shares that answer false. -/
theorem fanOut_false (operation : String) (label : ι → String) (members : List ι) (s : σ) :
    (fanOut operation label act members >>= fun _ => (pure false : Action σ StoreError Bool)) s =
      Share.together operation
        (members.map fun m => ⟨label m, act m >>= fun _ => pure false⟩) s := by
  have hnone : ∀ results : List α, results.any (fun _ => false) = false := fun results => by simp
  rw [← fanOut_any act fun _ => false]
  simp only [hnone]

end

/-! ### The calls -/

/-- A call to every member of a group. -/
inductive GroupCall (σ : Type) : Type 1
  /-- Store a value in every layer of a stack. -/
  | write {V : Type} (stack : Stack σ V) (id : String) (value : V) (expiry : Int64)
  /-- Delete an identifier from every layer of a stack. -/
  | remove {V : Type} (stack : Stack σ V) (id : String)
  /-- Delete an identifier from every map of a table. -/
  | removeRecord (t : Table σ) (id : String)
  /-- Upkeep of members that a coordinator has. -/
  | upkeep (members : List (Member σ)) (verb : Upkeep)
  /-- Upkeep of every map of a table. -/
  | upkeepTable (t : Table σ) (verb : Upkeep)
  /-- Upkeep of every layer of a stack, drawing where it is the cheap kind. -/
  | upkeepStack {V : Type} (stack : Stack σ V) (verb : Upkeep)
  /-- Upkeep of everything registered in a catalog. -/
  | upkeepCatalog (c : Catalog σ) (verb : Upkeep)

/-- Upkeep of a member as a share. -/
def Member.share {σ : Type} (m : Member σ) (verb : Upkeep) (now : Int64) : Share σ :=
  ⟨m.label, m.upkeep verb now >>= fun _ => pure false⟩

namespace GroupCall

variable {σ : Type} [PolicyKeeper σ]

/-- Carry out a call; what has no answer answers false. -/
def perform (now : Int64) : GroupCall σ → Action σ StoreError Bool
  | write stack id value expiry => do
    stack.writeExpiring now id value expiry
    pure false
  | remove stack id => stack.remove now id
  | removeRecord t id => t.remove now id
  | upkeep members verb => do
    Member.upkeepAll members verb now
    pure false
  | upkeepTable t verb => do
    t.upkeep now verb
    pure false
  | upkeepStack stack verb => do
    stack.upkeep now verb
    pure false
  | upkeepCatalog c verb => fun s =>
    match Catalog.upkeep now verb (c, s) with
    | (.ok (), _, s) => (.ok false, s)
    | (.error e, _, s) => (.error e, s)

/-- The state in which the first member is attempted: a stack draws before. -/
def start (s : σ) : GroupCall σ → σ
  | upkeepStack stack verb => (stack.carried verb s).2
  | _ => s

/-- The operation in failure reports; that of a stack may have been drawn. -/
def operation (s : σ) : GroupCall σ → String
  | write _ _ _ _ => "write"
  | remove _ _ | removeRecord _ _ => "remove"
  | upkeep _ verb | upkeepTable _ verb | upkeepCatalog _ verb => verb.name
  | upkeepStack stack verb => (stack.carried verb s).1.name

/-- What the call comes to for each member. -/
def shares (now : Int64) (s : σ) : GroupCall σ → List (Share σ)
  | write stack id value expiry =>
    stack.layers.map fun l => ⟨l.label, l.store now id value expiry >>= fun _ => pure false⟩
  | remove stack id => stack.layers.map fun l => ⟨l.label, l.discard now id⟩
  | removeRecord t id => t.maps.map fun b => ⟨b.name, (Layer.ofBackend b).discard now id⟩
  | upkeep members verb => members.map fun m => m.share verb now
  | upkeepTable t verb => t.maps.map fun b => (Member.ofBackend b).share verb now
  | upkeepStack stack verb =>
    stack.layers.map fun l => l.member.share (stack.carried verb s).1 now
  | upkeepCatalog c verb => c.members.map fun m => m.share verb now

/-- The identifier that a call removes. -/
def removes : GroupCall σ → Option String
  | remove _ id | removeRecord _ id => some id
  | _ => none

omit [PolicyKeeper σ] in
theorem upkeepAll_together (members : List (Member σ)) (verb : Upkeep) (now : Int64) (s : σ) :
    (Member.upkeepAll members verb now >>= fun _ => (pure false : Action σ StoreError Bool)) s =
      Share.together verb.name (members.map fun m => m.share verb now) s := by
  have hshares : (fun m : Member σ => m.share verb now) =
      fun m => ⟨m.label, m.upkeep verb now >>= fun _ => pure false⟩ := rfl
  rw [hshares, ← fanOut_false]
  simp only [Member.upkeepAll, bind_assoc, pure_bind]

/-- **A call is its shares carried out together.** -/
theorem perform_eq (call : GroupCall σ) (now : Int64) (s : σ) :
    call.perform now s =
      Share.together (call.operation s) (call.shares now s) (call.start s) := by
  cases call with
  | write stack id value expiry =>
    simp only [perform, shares, operation, start, Stack.writeExpiring, bind_assoc, pure_bind]
    exact fanOut_false _ "write" Layer.label stack.layers s
  | remove stack id =>
    have hany := fanOut_any (fun l => l.discard now id) (fun found => found == true) "remove"
      Layer.label stack.layers s
    simp only [beq_true, bind_pure] at hany
    show (fanOut "remove" Layer.label (fun l => l.discard now id) stack.layers >>= fun found =>
      pure (found.any (· == true))) s = _
    simp only [beq_true]
    exact hany
  | removeRecord t id =>
    have hany := fanOut_any (fun b => (b.remove now id).mapError .storage) Option.isSome "remove"
      Backend.name t.maps s
    simp only [← Action.mapError_bind_pure] at hany
    exact hany
  | upkeep members verb => exact upkeepAll_together members verb now s
  | upkeepTable t verb =>
    have hall := upkeepAll_together (t.maps.map Member.ofBackend) verb now s
    rw [List.map_map] at hall
    exact hall
  | upkeepStack stack verb =>
    have hall := upkeepAll_together (stack.layers.map Layer.member) (stack.carried verb s).1 now
      (stack.carried verb s).2
    rw [List.map_map] at hall
    refine Eq.trans ?_ hall
    show (stack.upkeep now verb >>= fun _ => pure false) s = _
    rw [Action.bind_apply, Action.bind_apply, Stack.upkeep_eq, Stack.upkeepLayers]
  | upkeepCatalog c verb =>
    refine Eq.trans ?_ (upkeepAll_together c.members verb now s)
    rw [Action.bind_apply]
    simp only [perform, Catalog.upkeep]
    rcases Member.upkeepAll c.members verb now s with ⟨_ | _, t⟩ <;> rfl

end GroupCall

/-! ### Members on parts of their own -/

section

variable {σ κ π γ : Type} {part : π → σ → γ}

/-- **Attempts of members with parts of their own** do what each attempt does alone. -/
theorem attemptEach_alone {α : Type} {act : κ → Action σ StoreError α} {members : List κ}
    {parts : List (List π)}
    (h : List.Forall₂ (fun m own => (act m).WorksOn part (· ∈ own)) members parts)
    (hapart : parts.Pairwise List.Disjoint) (s : σ) :
    (∀ {k : Nat} {m own}, members[k]? = some m → parts[k]? = some own →
        (attemptEach act members s).1[k]? = some (act m s).1 ∧
          ∀ p ∈ own, part p (attemptEach act members s).2 = part p (act m s).2) ∧
      ∀ p, (∀ own ∈ parts, p ∉ own) → part p (attemptEach act members s).2 = part p s := by
  induction h generalizing s with
  | nil => exact ⟨nofun, fun _ _ => rfl⟩
  | @cons m own members parts hm hmembers ih =>
    obtain ⟨hfirst, hrest⟩ := List.pairwise_cons.1 hapart
    obtain ⟨halone, hothers⟩ := ih hrest (act m s).2
    refine ⟨fun {k n ownₙ} hn hown => ?_, fun p hp => ?_⟩
    · cases k with
      | zero =>
        obtain rfl := Option.some.inj hn
        obtain rfl := Option.some.inj hown
        refine ⟨rfl, fun p hp => hothers p fun ownₙ hownₙ hin => ?_⟩
        exact hfirst ownₙ hownₙ hp hin
      | succ k =>
        have hdisjoint := hfirst ownₙ (List.mem_of_getElem? hown)
        have hwork : (act n).WorksOn part (· ∈ ownₙ) := by
          have hn' : members[k]? = some n := hn
          have hown' : parts[k]? = some ownₙ := hown
          obtain ⟨hk, rfl⟩ := List.getElem?_eq_some_iff.1 hn'
          obtain ⟨hk', rfl⟩ := List.getElem?_eq_some_iff.1 hown'
          exact hmembers.get hk hk'
        -- What the first member left of these parts is what was there.
        have hsame := hwork.alone (s := (act m s).2) (t := s) fun p hp =>
          hm.others s fun hin => hdisjoint hin hp
        obtain ⟨houtcome, hparts⟩ := halone hn hown
        exact ⟨by rw [← hsame.1]; exact houtcome, fun p hp => (hparts p hp).trans (hsame.2 p hp)⟩
    · obtain ⟨hout, hrestout⟩ := List.forall_mem_cons.1 hp
      exact (hothers p hrestout).trans (hm.others s hout)

end

end LayeredStore
