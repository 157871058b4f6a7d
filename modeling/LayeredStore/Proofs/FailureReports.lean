import LayeredStore.FanOut

/-! # Reports of failures

What a fan-out reports is told by its outcomes: a failure is listed just when the member in
its place ended in an error, under that member's name and with that error
(`mem_failuresFrom`), and the places ascend (`failuresFrom_ascending`).  Two such lists are
equal, so this says all there is to say about a report.
-/
namespace LayeredStore

/-- The places of failures ascend, from a first place to below a bound. -/
structure Ascending {ε : Type} (first bound : Nat) (failures : List (MemberFailure ε)) : Prop where
  ordered : failures.Pairwise fun f g => f.index < g.index
  inside : ∀ f ∈ failures, first ≤ f.index ∧ f.index < bound

namespace Ascending

variable {ε : Type} {first bound : Nat} {failures : List (MemberFailure ε)}

theorem nil : Ascending first bound ([] : List (MemberFailure ε)) := ⟨.nil, nofun⟩

/-- Nothing is in the first place. -/
theorem skip (h : Ascending (first + 1) bound failures) : Ascending first bound failures where
  ordered := h.ordered
  inside f hf := ⟨Nat.le_of_succ_le (h.inside f hf).1, (h.inside f hf).2⟩

theorem cons (h : Ascending (first + 1) bound failures) (hfirst : first < bound) (name : String)
    (cause : ε) : Ascending first bound (⟨first, name, cause⟩ :: failures) where
  ordered := List.pairwise_cons.2 ⟨fun f hf => (h.inside f hf).1, h.ordered⟩
  inside := List.forall_mem_cons.2 ⟨⟨Nat.le_refl first, hfirst⟩, h.skip.inside⟩

end Ascending

section

variable {ι α : Type} (label : ι → String)

theorem failuresFrom_ascending (place : Nat) (members : List ι)
    (outcomes : List (Except StoreError α)) :
    Ascending place (place + members.length) (failuresFrom label place members outcomes) := by
  induction members generalizing place outcomes with
  | nil => exact .nil
  | cons m rest ih =>
    have hbound : place + (m :: rest).length = place + 1 + rest.length := by
      rw [List.length_cons]
      omega
    rw [hbound]
    rcases outcomes with _ | ⟨e | a, outcomes⟩
    · exact .nil
    · exact (ih (place + 1) outcomes).cons (by omega) (label m) e
    · exact (ih (place + 1) outcomes).skip

variable {label}

/-- **A report lists exactly the members that failed**, each with its own error. -/
theorem mem_failuresFrom {place : Nat} {members : List ι} {outcomes : List (Except StoreError α)}
    {f : MemberFailure StoreError} :
    f ∈ failuresFrom label place members outcomes ↔
      ∃ i m e, members[i]? = some m ∧ outcomes[i]? = some (.error e) ∧
        f = ⟨place + i, label m, e⟩ := by
  induction members generalizing place outcomes with
  | nil => simp [failuresFrom]
  | cons m rest ih =>
    rcases outcomes with _ | ⟨outcome, outcomes⟩
    · simp [failuresFrom]
    -- The first member is in place zero of its list, and the others one further on.
    have hsplit : (∃ i n e, (m :: rest)[i]? = some n ∧ (outcome :: outcomes)[i]? = some (.error e) ∧
          f = ⟨place + i, label n, e⟩) ↔
        (∃ e, outcome = .error e ∧ f = ⟨place, label m, e⟩) ∨
          f ∈ failuresFrom label (place + 1) rest outcomes := by
      rw [ih]
      constructor
      · rintro ⟨_ | i, n, e, hn, he, rfl⟩
        · obtain rfl := Option.some.inj hn
          exact .inl ⟨e, Option.some.inj he, rfl⟩
        · exact .inr ⟨i, n, e, hn, he, by rw [Nat.add_assoc, Nat.add_comm 1 i]⟩
      · rintro (⟨e, rfl, rfl⟩ | ⟨i, n, e, hn, he, rfl⟩)
        · exact ⟨0, m, e, rfl, rfl, rfl⟩
        · exact ⟨i + 1, n, e, hn, he, by rw [Nat.add_assoc, Nat.add_comm 1 i]⟩
    rw [hsplit]
    cases outcome with
    | ok a => simp [failuresFrom]
    | error e => simp [failuresFrom]

end

end LayeredStore
