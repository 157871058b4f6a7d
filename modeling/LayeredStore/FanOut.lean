import LayeredStore.Storage.Backend
import LayeredStore.StoreError

/-! # Operations on every member

Tables pass operations on to their maps, stacks to their layers and catalogs to their
stacks.  All of them do it in one way, `fanOut`: every member is attempted, in order,
whether or not the ones before it failed; what the failed ones did to the state stays;
and the outcome is the list of all results, or one partial failure that names exactly
the members that failed, each with its own error.
-/
namespace LayeredStore

variable {σ ι α : Type}

/-- Carry out an action for every member in order and keep every outcome. -/
def attemptEach (act : ι → Action σ StoreError α) :
    List ι → σ → List (Except StoreError α) × σ
  | [], s => ([], s)
  | m :: rest, s =>
    match act m s with
    | (outcome, s) =>
      match attemptEach act rest s with
      | (outcomes, s) => (outcome :: outcomes, s)

/-- The failures among outcomes, the first member having a given place. -/
def failuresFrom (label : ι → String) (place : Nat) :
    List ι → List (Except StoreError α) → List (MemberFailure StoreError)
  | m :: rest, .error e :: outcomes =>
    ⟨place, label m, e⟩ :: failuresFrom label (place + 1) rest outcomes
  | _ :: rest, .ok _ :: outcomes => failuresFrom label (place + 1) rest outcomes
  | _, _ => []

/-- The results among outcomes. -/
def resultsOf : List (Except StoreError α) → List α
  | [] => []
  | .ok a :: outcomes => a :: resultsOf outcomes
  | .error _ :: outcomes => resultsOf outcomes

/-- Attempt every member; succeed with all results, or fail with every failure. -/
def fanOut (operation : String) (label : ι → String) (act : ι → Action σ StoreError α)
    (members : List ι) : Action σ StoreError (List α) := fun s =>
  match attemptEach act members s with
  | (outcomes, s) =>
    match failuresFrom label 0 members outcomes with
    | [] => (.ok (resultsOf outcomes), s)
    | failures => (.error (.partialFailure operation members.length failures), s)

/-- Something that upkeep can be asked of, under a name. -/
structure Member (σ : Type) where
  /-- The name in failure reports. -/
  label : String
  /-- Carry out upkeep at a time. -/
  upkeep : Upkeep → (now : Int64) → Action σ StoreError Unit

namespace Member

/-- A backend map as a member. -/
def ofBackend (b : Backend σ) : Member σ :=
  ⟨b.name, fun verb now => (b.upkeep now verb).mapError .storage⟩

/-- Carry out upkeep on every member. -/
def upkeepAll (members : List (Member σ)) (verb : Upkeep) (now : Int64) :
    Action σ StoreError Unit := do
  let _ ← fanOut verb.name Member.label (fun m => m.upkeep verb now) members

end Member

/-! ### Small facts -/

theorem length_attemptEach (act : ι → Action σ StoreError α) (members : List ι) (s : σ) :
    (attemptEach act members s).1.length = members.length := by
  induction members generalizing s with
  | nil => rfl
  | cons m rest ih => simp [attemptEach, ih]

theorem attemptEach_map {κ : Type} (act : ι → Action σ StoreError α) (f : κ → ι) (members : List κ)
    (s : σ) : attemptEach act (members.map f) s = attemptEach (fun k => act (f k)) members s := by
  induction members generalizing s with
  | nil => rfl
  | cons k rest ih => simp only [List.map_cons, attemptEach, ih]

/-- There are no failures just when every outcome is a result. -/
theorem failuresFrom_eq_nil_iff {label : ι → String} {place : Nat} {members : List ι}
    {outcomes : List (Except StoreError α)} (h : outcomes.length = members.length) :
    failuresFrom label place members outcomes = [] ↔ outcomes = (resultsOf outcomes).map .ok := by
  induction members generalizing place outcomes with
  | nil => simp [List.length_eq_zero_iff.1 h, failuresFrom, resultsOf]
  | cons m rest ih =>
    obtain ⟨outcome, outcomes, rfl⟩ := List.exists_cons_of_length_eq_add_one h
    cases outcome with
    | ok a => simp [failuresFrom, resultsOf, ih (Nat.succ.inj h)]
    | error e =>
      refine ⟨fun he => by simp [failuresFrom] at he, fun ho => ?_⟩
      have hhead : Except.error e ∈ (resultsOf outcomes).map (Except.ok (ε := StoreError)) := by
        rw [show resultsOf outcomes = resultsOf (.error e :: outcomes) from rfl, ← ho]
        exact List.mem_cons_self
      simp at hhead

/-- **A fan-out succeeds with all results or fails**; either way every member was
attempted. -/
theorem fanOut_apply (operation : String) (label : ι → String) (act : ι → Action σ StoreError α)
    (members : List ι) (s : σ) :
    (∃ results, (attemptEach act members s).1 = results.map .ok ∧
        fanOut operation label act members s = (.ok results, (attemptEach act members s).2)) ∨
      ∃ e, fanOut operation label act members s = (.error e, (attemptEach act members s).2) := by
  have hiff : failuresFrom label 0 members (attemptEach act members s).1 = [] ↔ _ :=
    failuresFrom_eq_nil_iff (length_attemptEach act members s)
  unfold fanOut
  generalize attemptEach act members s = attempts at hiff ⊢
  obtain ⟨outcomes, t⟩ := attempts
  simp only at hiff ⊢
  split
  · next hnil => exact .inl ⟨resultsOf outcomes, hiff.1 hnil, rfl⟩
  · exact .inr ⟨_, rfl⟩

end LayeredStore
