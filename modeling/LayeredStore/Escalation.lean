import LayeredStore.Settings
import LayeredStore.Storage.Action

/-! # Escalation of upkeep

Cheap upkeep now and then becomes a full run.  An `EscalationPolicy` decides it by a draw: a
number of 53 bits, read as a fraction of one, is compared with the chance.

How numbers are drawn is not described here.  A `Randomness` says which numbers a generator
draws that is started from a seed, so that they can be repeated, and which it draws without
one.  A policy takes them one after another, and nothing is assumed about them.

Every stack has a policy of its own, kept in the state under the stack's ticket.  It counts
its escalations by a number without bound, and a counter of 64 bits agrees with that as
long as it has not come to 2^64.
-/
namespace LayeredStore

/-- The numbers that a generator draws, in turn. -/
def Draws : Type := Nat → Fin 0x20000000000000

/-- What generators draw. -/
structure Randomness where
  /-- What is drawn from a seed. -/
  seeded : UInt64 → Draws
  /-- What is drawn without a seed, for the stack with a ticket. -/
  unseeded : Nat → Draws

/-- What the stack with a ticket draws, with a seed or without one. -/
def Randomness.draws (random : Randomness) (ticket : Nat) : Option UInt64 → Draws
  | some seed => random.seeded seed
  | none => random.unseeded ticket

/-- Zeros, whatever the seed. -/
instance : Inhabited Randomness := ⟨fun _ _ => ⟨0, by decide⟩, fun _ _ => ⟨0, by decide⟩⟩

/-- When cheap upkeep becomes a full run. -/
structure EscalationPolicy where
  /-- The chance, from zero to one. -/
  probability : Binary64
  /-- The numbers it draws. -/
  draws : Draws
  /-- How many of them have been drawn. -/
  drawn : Nat
  /-- How many draws have escalated. -/
  escalations : Nat

namespace EscalationPolicy

/-- Bring a chance into the range from zero to one; a NaN becomes zero. -/
def clamp (x : Binary64) : Binary64 :=
  if x.isNaN then .zero
  else if x.compare? .zero = some .lt then .zero
  else if Binary64.one.compare? x = some .lt then .one
  else x

/-- A policy with a chance, which has drawn nothing yet. -/
def new (probability : Binary64) (draws : Draws) : EscalationPolicy :=
  ⟨clamp probability, draws, 0, 0⟩

/-- The policy of settings, for the stack with a ticket. -/
def ofSettings (random : Randomness) (ticket : Nat) (s : Settings) : EscalationPolicy :=
  new s.probability (random.draws ticket s.seed?)

/-- Never escalate. -/
def never (random : Randomness) : EscalationPolicy := new .zero (random.seeded 0)

/-- Always escalate. -/
def always (random : Randomness) : EscalationPolicy := new .one (random.seeded 0)

/-- The fraction of one that a drawn number reads as. -/
def fraction (n : Fin 0x20000000000000) : Binary64 := .nearest false n 0x20000000000000

/-- Draw once: whether to escalate, and the policy afterwards. -/
def decide (p : EscalationPolicy) : Bool × EscalationPolicy :=
  if (fraction (p.draws p.drawn)).compare? p.probability = some .lt then
    (true, { p with drawn := p.drawn + 1, escalations := p.escalations + 1 })
  else (false, { p with drawn := p.drawn + 1 })

end EscalationPolicy

/-- A state that keeps the escalation policies of stacks under their tickets. -/
class PolicyKeeper (σ : Type) where
  /-- What the policies draw. -/
  random : σ → Randomness
  /-- Where the policy of a ticket is kept. -/
  policy : Nat → Place σ EscalationPolicy
  /-- Issue a ticket that no stack has. -/
  issue : σ → Nat × σ

/-- Issue a ticket to a stack and keep a policy of its settings under it. -/
def PolicyKeeper.enrol {σ : Type} [PolicyKeeper σ] (settings : Settings) (s : σ) : Nat × σ :=
  match issue s with
  | (ticket, s) => (ticket, (policy ticket).write (.ofSettings (random s) ticket settings) s)

end LayeredStore
