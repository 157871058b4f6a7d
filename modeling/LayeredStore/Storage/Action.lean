/-! # Actions

An action works on a state: it ends in a value or an error, and in both cases leaves a
state behind.  An error ends a sequence of actions but undoes nothing, so what a failed
sequence did before stays done.

A `Place` is where a part of a larger state is kept.  An action on the part becomes an
action on the whole (`Action.within`), which leaves every independent part alone.
-/
namespace LayeredStore

/-- A step from a state to a value or an error and the state left behind. -/
def Action (σ ε α : Type) : Type := σ → Except ε α × σ

namespace Action

variable {σ τ ε ε' α β : Type}

instance : Monad (Action σ ε) where
  pure a := fun s => (.ok a, s)
  bind x f := fun s =>
    match x s with
    | (.ok a, s) => f a s
    | (.error e, s) => (.error e, s)

@[simp] theorem pure_apply (a : α) (s : σ) : (pure a : Action σ ε α) s = (.ok a, s) := rfl

theorem bind_apply (x : Action σ ε α) (f : α → Action σ ε β) (s : σ) :
    (x >>= f) s = match x s with
      | (.ok a, s) => f a s
      | (.error e, s) => (.error e, s) := rfl

theorem bind_ok {x : Action σ ε α} {a : α} {s t : σ} (h : x s = (.ok a, t))
    (f : α → Action σ ε β) : (x >>= f) s = f a t := by
  rw [bind_apply, h]

theorem bind_error {x : Action σ ε α} {e : ε} {s t : σ} (h : x s = (.error e, t))
    (f : α → Action σ ε β) : (x >>= f) s = (.error e, t) := by
  rw [bind_apply, h]

/-- What ends in a value went through both parts. -/
theorem exists_of_bind_ok {x : Action σ ε α} {f : α → Action σ ε β} {b : β} {s t : σ}
    (h : (x >>= f) s = (.ok b, t)) : ∃ a u, x s = (.ok a, u) ∧ f a u = (.ok b, t) := by
  rw [bind_apply] at h
  split at h
  · next a u hx => exact ⟨a, u, hx, h⟩
  · cases h

instance : LawfulMonad (Action σ ε) :=
  LawfulMonad.mk' _
    (fun x => by
      funext s
      show (match x s with
        | (.ok a, s) => (.ok a, s)
        | (.error e, s) => (.error e, s)) = x s
      rcases x s with ⟨_ | _, _⟩ <;> rfl)
    (fun _ _ => rfl)
    (fun x f g => by
      funext s
      simp only [bind_apply]
      rcases x s with ⟨_ | _, _⟩ <;> rfl)

/-- End in an error, leaving the state as it is. -/
def fail (e : ε) : Action σ ε α := fun s => (.error e, s)

@[simp] theorem fail_apply (e : ε) (s : σ) : (fail e : Action σ ε α) s = (.error e, s) := rfl

/-- End as a computation without state does. -/
def ofExcept (x : Except ε α) : Action σ ε α := fun s => (x, s)

/-- Change the error. -/
def mapError (f : ε → ε') (x : Action σ ε α) : Action σ ε' α := fun s =>
  match x s with
  | (.ok a, s) => (.ok a, s)
  | (.error e, s) => (.error (f e), s)

theorem mapError_ok {x : Action σ ε α} {a : α} {s t : σ} (h : x s = (.ok a, t)) (f : ε → ε') :
    x.mapError f s = (.ok a, t) := by
  rw [mapError, h]

/-- Look at a value computed from the state. -/
def inspect (f : σ → α) : Action σ ε α := fun s => (.ok (f s), s)

/-- Change the state. -/
def change (f : σ → σ) : Action σ ε Unit := fun s => (.ok (), f s)

/-- Carry out an action on the first part of a pair. -/
def onFirst (x : Action σ ε α) : Action (σ × τ) ε α := fun (s, t) =>
  match x s with
  | (r, s) => (r, (s, t))

/-- Carry out an action on the second part of a pair. -/
def onSecond (x : Action τ ε α) : Action (σ × τ) ε α := fun (s, t) =>
  match x t with
  | (r, t) => (r, (s, t))

end Action

/-- Where a part of type `τ` is kept in a state of type `σ`. -/
structure Place (σ τ : Type) where
  /-- The part. -/
  read : σ → τ
  /-- The state with another part in this place. -/
  write : τ → σ → σ
  /-- What is written is read. -/
  read_write : ∀ t s, read (write t s) = t

namespace Place

variable {σ τ υ : Type}

/-- The whole state. -/
def whole : Place σ σ := ⟨id, fun t _ => t, fun _ _ => rfl⟩

/-- A place inside a place. -/
def inside (outer : Place σ τ) (inner : Place τ υ) : Place σ υ where
  read s := inner.read (outer.read s)
  write u s := outer.write (inner.write u (outer.read s)) s
  read_write u s := by rw [outer.read_write, inner.read_write]

/-- Two places of one state do not touch each other. -/
structure Independent (p : Place σ τ) (q : Place σ υ) : Prop where
  /-- Writing the second leaves the first. -/
  read_of_write : ∀ u s, p.read (q.write u s) = p.read s
  /-- Writing the first leaves the second. -/
  read_of_write' : ∀ t s, q.read (p.write t s) = q.read s

end Place

/-- Carry out an action on the part that is kept in a place. -/
def Action.within {σ τ ε α : Type} (p : Place σ τ) (x : Action τ ε α) : Action σ ε α := fun s =>
  match x (p.read s) with
  | (r, t) => (r, p.write t s)

theorem Action.within_apply {σ τ ε α : Type} (p : Place σ τ) (x : Action τ ε α) (s : σ) :
    x.within p s = ((x (p.read s)).1, p.write (x (p.read s)).2 s) := rfl

end LayeredStore
