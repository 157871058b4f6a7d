import LayeredStore.Escalation
import LayeredStore.FanOut

/-! # Layered stacks

A stack puts several layers behind one set of operations.  Layer zero has the highest
priority.  A read takes the first layer that has the value and copies it, with its
expiry, into the layers above; writes and removals go to every layer.

A layer that fails does not stop a read that another layer can answer, and a copy that
fails is forgotten.  A read that finds nothing while some layer failed is an error, never
an absence.

An operation has one time, `now`, for all that it does.  So an entry does not expire
between the two requests that `Layer.ofBackend` makes of a map for a value and its expiry,
and a map that has the value has the expiry: the answer for an entry that expires in
between is given only where a backend contradicts itself.
-/
namespace LayeredStore

variable {σ V : Type}

/-- One layer of a stack: values under identifiers, with their expiry. -/
structure Layer (σ V : Type) where
  /-- The name in failure reports. -/
  label : String
  /-- The value of an identifier and when it expires. -/
  fetch : (now : Int64) → (id : String) → Action σ StoreError (Option (V × Int64))
  /-- Store a value, replacing what was there. -/
  store : (now : Int64) → (id : String) → V → (expiry : Int64) → Action σ StoreError Unit
  /-- Delete an identifier; the answer is whether something was deleted. -/
  discard : (now : Int64) → (id : String) → Action σ StoreError Bool
  /-- Carry out upkeep. -/
  upkeep : Upkeep → (now : Int64) → Action σ StoreError Unit

namespace Layer

/-- The layer as a member of a group. -/
def member (l : Layer σ V) : Member σ := ⟨l.label, l.upkeep⟩

/-- A backend map as a layer of byte values.  An entry whose expiry is not to be had is
absent. -/
def ofBackend (b : Backend σ) : Layer σ Bytes where
  label := b.name
  fetch now id := Action.mapError .storage do
    match ← b.get now id with
    | none => pure none
    | some value =>
      match ← b.expiry now id with
      | none => pure none
      | some expiry => pure (some (value, expiry))
  store now id value expiry := Action.mapError .storage do
    let _ ← b.put now id value expiry
  discard now id := Action.mapError .storage do
    let removed ← b.remove now id
    pure removed.isSome
  upkeep verb now := (b.upkeep now verb).mapError .storage

end Layer

/-- A value found in a stack. -/
structure Hit (V : Type) where
  /-- The layer that had it. -/
  layer : Nat
  /-- The value. -/
  value : V
  /-- When it expires. -/
  expiry : Int64

/-- Ask layers in turn until one has the identifier.  The layers that failed on the way
are reported with it; `place` is that of the first layer. -/
def searchFrom (now : Int64) (id : String) (place : Nat) :
    List (Layer σ V) → σ → (List (MemberFailure StoreError) × Option (Hit V)) × σ
  | [], s => (([], none), s)
  | l :: rest, s =>
    match l.fetch now id s with
    | (.ok (some (value, expiry)), s) => (([], some ⟨place, value, expiry⟩), s)
    | (.ok none, s) => searchFrom now id (place + 1) rest s
    | (.error e, s) =>
      match searchFrom now id (place + 1) rest s with
      | ((failures, hit), s) => ((⟨place, l.label, e⟩ :: failures, hit), s)

/-- Store a value in each of some layers, whatever becomes of it. -/
def populate (now : Int64) (id : String) (value : V) (expiry : Int64) :
    List (Layer σ V) → σ → σ
  | [], s => s
  | l :: rest, s => populate now id value expiry rest (l.store now id value expiry s).2

/-- Layers in the order of their priority, behind one name. -/
structure Stack (σ V : Type) where
  /-- The name in failure reports. -/
  name : String
  /-- The layers, the highest priority first. -/
  layers : List (Layer σ V)
  /-- How long written values live, in seconds; zero is for ever. -/
  lifespan : UInt64
  /-- The ticket under which the state keeps the stack's policy; no other stack has it. -/
  ticket : Nat

namespace Stack

/-- Put layers together.  There must be at least one, and the settings must work. -/
def compose [PolicyKeeper σ] (name : String) (layers : List (Layer σ V)) (settings : Settings) :
    Action σ StoreError (Stack σ V) :=
  match settings.validate with
  | .error fault => .fail (.invalidSettings fault.message)
  | .ok () =>
    if layers.isEmpty then .fail (.invalidSettings "a stack needs at least one layer")
    else fun s =>
      match PolicyKeeper.enrol settings s with
      | (ticket, s) => (.ok ⟨name, layers, settings.lifespan, ticket⟩, s)

variable (stack : Stack σ V) (now : Int64)

/-- The value of an identifier, from the first layer that has it; the layers above it
get a copy. -/
def read (id : String) : Action σ StoreError (Option V) := fun s =>
  match searchFrom now id 0 stack.layers s with
  | ((_, some hit), s) =>
    (.ok (some hit.value),
      populate now id hit.value hit.expiry (stack.layers.take hit.layer) s)
  | (([], none), s) => (.ok none, s)
  | ((failures, none), s) =>
    (.error (.partialFailure "read" stack.layers.length failures), s)

/-- Store a value in every layer with an expiry. -/
def writeExpiring (id : String) (value : V) (expiry : Int64) : Action σ StoreError Unit := do
  let _ ← fanOut "write" Layer.label (fun l => l.store now id value expiry) stack.layers

/-- Store a value in every layer for the stack's lifespan. -/
def write (id : String) (value : V) : Action σ StoreError Unit :=
  stack.writeExpiring now id value (expiryAfter now stack.lifespan)

/-- Read a value, derive a new one from it and store that in every layer. -/
def update (id : String) (derive : Option V → V) : Action σ StoreError V := do
  let value := derive (← stack.read now id)
  stack.write now id value
  pure value

/-- Delete an identifier from every layer; the answer is whether one of them had it. -/
def remove (id : String) : Action σ StoreError Bool := do
  let found ← fanOut "remove" Layer.label (fun l => l.discard now id) stack.layers
  pure (found.any (· == true))

/-- Carry out upkeep on every layer, without drawing. -/
def upkeepLayers (verb : Upkeep) : Action σ StoreError Unit :=
  Member.upkeepAll (stack.layers.map Layer.member) verb now

/-- Draw whether to escalate. -/
def drawEscalation [PolicyKeeper σ] : Action σ StoreError Bool := fun s =>
  let place := PolicyKeeper.policy stack.ticket
  let drawn := (place.read s).decide
  (.ok drawn.1, place.write drawn.2 s)

/-- Do cheap upkeep on every layer, or a full run if the policy says so; the answer is
which it was. -/
def incremental [PolicyKeeper σ] : Action σ StoreError Bool := do
  if ← stack.drawEscalation then
    stack.upkeepLayers now .maintenance
    pure true
  else
    stack.upkeepLayers now .incremental
    pure false

/-- Carry out upkeep, drawing where it is the cheap kind. -/
def upkeep [PolicyKeeper σ] : Upkeep → Action σ StoreError Unit
  | .incremental => do let _ ← stack.incremental now
  | verb => stack.upkeepLayers now verb

/-- The stack as a member of a group. -/
def member [PolicyKeeper σ] : Member σ := ⟨stack.name, fun verb now => stack.upkeep now verb⟩

/-- How many times the stack's policy has escalated. -/
def escalations [PolicyKeeper σ] (s : σ) : Nat :=
  ((PolicyKeeper.policy stack.ticket).read s).escalations

/-! ### Small facts -/

theorem drawEscalation_apply [PolicyKeeper σ] (s : σ) :
    stack.drawEscalation s =
      (.ok ((PolicyKeeper.policy stack.ticket).read s).decide.1,
        (PolicyKeeper.policy stack.ticket).write
          ((PolicyKeeper.policy stack.ticket).read s).decide.2 s) := rfl

variable {stack}

/-- Incremental upkeep carries out what was drawn, and answers with it. -/
theorem incremental_apply [PolicyKeeper σ] {s t : σ} {escalate : Bool}
    (h : stack.drawEscalation s = (.ok escalate, t)) :
    stack.incremental now s =
      match stack.upkeepLayers now (if escalate then .maintenance else .incremental) t with
      | (.ok (), u) => (.ok escalate, u)
      | (.error e, u) => (.error e, u) := by
  rw [incremental, Action.bind_ok h]
  cases escalate with
  | true =>
    simp only [if_true, Action.bind_apply]
    generalize stack.upkeepLayers now .maintenance t = done
    obtain ⟨e | _, u⟩ := done <;> rfl
  | false =>
    simp only [Bool.false_eq_true, if_false, Action.bind_apply]
    generalize stack.upkeepLayers now .incremental t = done
    obtain ⟨e | _, u⟩ := done <;> rfl

theorem upkeep_incremental [PolicyKeeper σ] {s t : σ} {escalate : Bool}
    (h : stack.drawEscalation s = (.ok escalate, t)) :
    stack.upkeep now .incremental s =
      stack.upkeepLayers now (if escalate then .maintenance else .incremental) t := by
  have hrun := incremental_apply now h
  have heq : stack.upkeep now .incremental = (do let _ ← stack.incremental now) := rfl
  -- Bound at a state, the draw would be evaluated; so the bind is opened by its outcome.
  rcases hdone : stack.upkeepLayers now (if escalate then .maintenance else .incremental) t with
    ⟨e | _, u⟩ <;> rw [hdone] at hrun <;> rw [heq]
  · exact Action.bind_error hrun _
  · exact Action.bind_ok hrun _

end Stack

end LayeredStore
