import LayeredStore.Stack
import LayeredStore.Proofs.FailureReports

/-! # The calls of a layered read

What a stack asks of its layers is more than its answer shows: a copy that fails is forgotten,
and a layer that is asked in vain leaves no trace.  So the layers are watched here.  A watched
layer does what the layer does and notes the call beside the state (`Layer.noted`), and a stack
of watched layers runs as it is, with the calls of a run as a list to look at.

The relation `Stack.Reading` says which answer and which calls belong to what the fetches come to.
`Stack.read_update_calls` is that for every read, and for the update that is built on it: where
the read fails no layer is written, and otherwise every layer is, with what was derived from the
answer.
-/
namespace LayeredStore

variable {σ V : Type}

/-! ### Watching layers -/

/-- What a stack calls of the layer in some place. -/
inductive LayerCall (V : Type) where
  | fetch (place : Nat) (id : String)
  | store (place : Nat) (id : String) (value : V) (expiry : Int64)
  | discard (place : Nat) (id : String)
  | upkeep (place : Nat) (verb : Upkeep)

/-- Carry out an action beside the calls so far, and note one more. -/
def Action.noting {C ε α : Type} (call : C) (x : Action σ ε α) : Action (σ × List C) ε α :=
  fun (s, calls) => ((x s).1, (x s).2, calls ++ [call])

/-- A layer whose calls are noted, with the place it has. -/
def Layer.noted (place : Nat) (l : Layer σ V) : Layer (σ × List (LayerCall V)) V where
  label := l.label
  fetch now id := (l.fetch now id).noting (.fetch place id)
  store now id value expiry := (l.store now id value expiry).noting (.store place id value expiry)
  discard now id := (l.discard now id).noting (.discard place id)
  upkeep verb now := (l.upkeep verb now).noting (.upkeep place verb)

/-- Layers whose calls are noted; `place` is that of the first. -/
def notedFrom (place : Nat) : List (Layer σ V) → List (Layer (σ × List (LayerCall V)) V)
  | [] => []
  | l :: rest => l.noted place :: notedFrom (place + 1) rest

/-- The stack with its layers watched. -/
def Stack.noted (stack : Stack σ V) : Stack (σ × List (LayerCall V)) V :=
  ⟨stack.name, notedFrom 0 stack.layers, stack.lifespan, stack.ticket⟩

/-- One fetch from each of some layers, in order. -/
def fetches (id : String) (place count : Nat) : List (LayerCall V) :=
  (List.range' place count).map fun i => .fetch i id

/-- One store into each of some layers, in order. -/
def stores (id : String) (value : V) (expiry : Int64) (place count : Nat) : List (LayerCall V) :=
  (List.range' place count).map fun i => .store i id value expiry

section

variable {now : Int64} {id : String}

theorem fetches_succ (place count : Nat) : (fetches id place (count + 1) : List (LayerCall V)) =
    .fetch place id :: fetches id (place + 1) count := rfl

theorem stores_succ (value : V) (expiry : Int64) (place count : Nat) :
    stores id value expiry place (count + 1) =
      .store place id value expiry :: stores id value expiry (place + 1) count := rfl

theorem length_notedFrom (place : Nat) (layers : List (Layer σ V)) :
    (notedFrom place layers).length = layers.length := by
  induction layers generalizing place with
  | nil => rfl
  | cons l rest ih => rw [notedFrom, List.length_cons, List.length_cons, ih]

theorem take_notedFrom (place count : Nat) (layers : List (Layer σ V)) :
    (notedFrom place layers).take count = notedFrom place (layers.take count) := by
  induction layers generalizing place count with
  | nil => rw [notedFrom, List.take_nil, List.take_nil, notedFrom]
  | cons l rest ih =>
    cases count with
    | zero => rfl
    | succ count => rw [notedFrom, List.take_succ_cons, List.take_succ_cons, notedFrom, ih]

/-! ### Writing -/

/-- **A copy is stored once in each layer, in order**, whatever the stores before came to. -/
theorem populate_noted (value : V) (expiry : Int64) (layers : List (Layer σ V)) (place : Nat)
    (s : σ) (calls : List (LayerCall V)) :
    populate now id value expiry (notedFrom place layers) (s, calls) =
      (populate now id value expiry layers s,
        calls ++ stores id value expiry place layers.length) := by
  induction layers generalizing place s calls with
  | nil => exact congrArg (Prod.mk s) (List.append_nil calls).symm
  | cons l rest ih =>
    show populate now id value expiry (notedFrom (place + 1) rest)
      ((l.store now id value expiry s).2, calls ++ [.store place id value expiry]) = _
    rw [ih, populate, List.length_cons, stores_succ, List.append_assoc]
    rfl

/-- Where every member is attempted, every layer is written, in order. -/
theorem attemptEach_store_noted (value : V) (expiry : Int64) (layers : List (Layer σ V))
    (place : Nat) (s : σ) (calls : List (LayerCall V)) :
    attemptEach (fun l => l.store now id value expiry) (notedFrom place layers) (s, calls) =
      ((attemptEach (fun l => l.store now id value expiry) layers s).1,
        (attemptEach (fun l => l.store now id value expiry) layers s).2,
        calls ++ stores id value expiry place layers.length) := by
  induction layers generalizing place s calls with
  | nil => exact congrArg (fun calls => ([], s, calls)) (List.append_nil calls).symm
  | cons l rest ih =>
    have hrest := ih (place + 1) (l.store now id value expiry s).2
      (calls ++ [.store place id value expiry])
    simp only [notedFrom, attemptEach, Layer.noted, Action.noting, hrest, List.length_cons,
      stores_succ, List.append_assoc, List.singleton_append]

theorem failuresFrom_noted {α : Type} (first place : Nat) (layers : List (Layer σ V))
    (outcomes : List (Except StoreError α)) :
    failuresFrom Layer.label first (notedFrom place layers) outcomes =
      failuresFrom Layer.label first layers outcomes := by
  induction layers generalizing first place outcomes with
  | nil => rfl
  | cons l rest ih =>
    rcases outcomes with _ | ⟨e | a, outcomes⟩
    · rfl
    · simp only [notedFrom, failuresFrom, ih]
      rfl
    · simp only [notedFrom, failuresFrom, ih]

/-- A fan-out of stores is the same watched. -/
theorem fanOut_store_noted (operation : String) (value : V) (expiry : Int64)
    (layers : List (Layer σ V)) {s t : σ} {outcome : Except StoreError (List Unit)}
    (h : fanOut operation Layer.label (fun l => l.store now id value expiry) layers s =
      (outcome, t)) (calls : List (LayerCall V)) :
    fanOut operation Layer.label (fun l => l.store now id value expiry) (notedFrom 0 layers)
        (s, calls) = (outcome, t, calls ++ stores id value expiry 0 layers.length) := by
  rw [fanOut] at h ⊢
  rw [attemptEach_store_noted]
  generalize attemptEach (fun l => l.store now id value expiry) layers s = attempts at h ⊢
  obtain ⟨outcomes, u⟩ := attempts
  simp only [failuresFrom_noted, length_notedFrom] at h ⊢
  cases hfailures : failuresFrom Layer.label 0 layers outcomes with
  | nil | cons =>
    rw [hfailures] at h
    cases h
    rfl

/-- **A write stores into every layer, in order**, and answers as it does unwatched. -/
theorem Stack.write_noted {stack : Stack σ V} {value : V} {s t : σ}
    {result : Except StoreError Unit} (h : stack.write now id value s = (result, t))
    (calls : List (LayerCall V)) :
    stack.noted.write now id value (s, calls) =
      (result, t, calls ++
        stores id value (expiryAfter now stack.lifespan) 0 stack.layers.length) := by
  rcases hstores : fanOut "write" Layer.label
      (fun l => l.store now id value (expiryAfter now stack.lifespan)) stack.layers s with
    ⟨e | done, u⟩
  all_goals have hnoted := fanOut_store_noted _ _ _ _ hstores calls
  · obtain ⟨rfl, rfl⟩ := Prod.mk.inj ((Action.bind_error hstores _).symm.trans h)
    exact Action.bind_error hnoted _
  · obtain ⟨rfl, rfl⟩ := Prod.mk.inj ((Action.bind_ok hstores _).symm.trans h)
    exact Action.bind_ok hnoted _

/-! ### Searching -/

/-- No fetch found anything. -/
def Missed (outcomes : List (Except StoreError (Option (V × Int64)))) : Prop :=
  ∀ found, .ok (some found) ∉ outcomes

/-- The first fetch that found something. -/
structure FirstHit (outcomes : List (Except StoreError (Option (V × Int64)))) (place : Nat)
    (value : V) (expiry : Int64) : Prop where
  /-- It found this entry. -/
  hit : outcomes[place]? = some (.ok (some (value, expiry)))
  /-- Those before it found nothing. -/
  first : Missed (outcomes.take place)

/-- What a search ends in, and how many layers it asked. -/
inductive Searched (place : Nat) (layers : List (Layer σ V))
    (outcomes : List (Except StoreError (Option (V × Int64)))) :
    List (MemberFailure StoreError) × Option (Hit V) → Nat → Prop
  | hit {failures : List (MemberFailure StoreError)} {k : Nat} {value : V} {expiry : Int64} :
      FirstHit outcomes k value expiry →
      Searched place layers outcomes (failures, some ⟨place + k, value, expiry⟩) (k + 1)
  | miss : Missed outcomes →
      Searched place layers outcomes (failuresFrom Layer.label place layers outcomes, none)
        layers.length

variable {l : Layer σ V} {rest layers : List (Layer σ V)} {place asked : Nat}
  {outcome : Except StoreError (Option (V × Int64))}
  {outcomes : List (Except StoreError (Option (V × Int64)))}

theorem Missed.nil : Missed ([] : List (Except StoreError (Option (V × Int64)))) :=
  fun _ => List.not_mem_nil

theorem Missed.cons (houtcome : ∀ found, outcome ≠ .ok (some found)) (h : Missed outcomes) :
    Missed (outcome :: outcomes) := by
  intro found hfound
  rcases List.mem_cons.1 hfound with heq | hfound
  · exact houtcome found heq.symm
  · exact h found hfound

theorem FirstHit.cons {k : Nat} {value : V} {expiry : Int64}
    (houtcome : ∀ found, outcome ≠ .ok (some found)) (h : FirstHit outcomes k value expiry) :
    FirstHit (outcome :: outcomes) (k + 1) value expiry where
  hit := h.hit
  first := h.first.cons houtcome

/-- A layer that does not have the identifier is passed by; it is reported if it failed. -/
theorem Searched.passed {failures : List (MemberFailure StoreError)} {hit? : Option (Hit V)}
    (houtcome : ∀ found, outcome ≠ .ok (some found))
    (h : Searched (place + 1) rest outcomes (failures, hit?) asked) :
    Searched place (l :: rest) (outcome :: outcomes)
      (failuresFrom Layer.label place [l] [outcome] ++ failures, hit?) (asked + 1) := by
  cases h with
  | @hit failures k value expiry h =>
    rw [Nat.add_assoc, Nat.add_comm 1 k]
    exact .hit (h.cons houtcome)
  | miss h =>
    have hreport : failuresFrom Layer.label place (l :: rest) (outcome :: outcomes) =
        failuresFrom Layer.label place [l] [outcome] ++
          failuresFrom Layer.label (place + 1) rest outcomes := by
      cases outcome <;> rfl
    rw [← hreport]
    exact .miss (h.cons houtcome)

/-- **A search asks layers in order until one has the identifier**, and is the same whether it is
watched or not. -/
theorem searchFrom_noted (now : Int64) (id : String) (layers : List (Layer σ V)) (place : Nat)
    (s : σ) (calls : List (LayerCall V)) :
    ∃ searched t asked,
      searchFrom now id place layers s = (searched, t) ∧
      searchFrom now id place (notedFrom place layers) (s, calls) =
        (searched, t, calls ++ fetches id place asked) ∧
      Searched place layers (attemptEach (fun l => l.fetch now id) layers s).1 searched asked := by
  induction layers generalizing place s calls with
  | nil =>
    have hcalls : calls = calls ++ fetches id place 0 := (List.append_nil calls).symm
    refine ⟨([], none), s, 0, rfl, ?_, .miss .nil⟩
    rw [← hcalls]
    rfl
  | cons l rest ih =>
    obtain ⟨⟨failures, hit?⟩, t, asked, hplain, hnoted, hsearched⟩ :=
      ih (place + 1) (l.fetch now id s).2 (calls ++ [.fetch place id])
    rw [List.append_assoc, List.singleton_append, ← fetches_succ] at hnoted
    simp only [notedFrom, searchFrom, attemptEach, Layer.noted, Action.noting]
    rcases hfetch : l.fetch now id s with ⟨e | _ | ⟨value, expiry⟩, u⟩ <;>
      rw [hfetch] at hplain hnoted hsearched <;> simp only [hfetch]
    · refine ⟨(⟨place, l.label, e⟩ :: failures, hit?), t, asked + 1, ?_, ?_,
        hsearched.passed (by simp)⟩
      · simp only [hplain]
      · simp only [hnoted]
    · exact ⟨(failures, hit?), t, asked + 1, hplain, hnoted, hsearched.passed (by simp)⟩
    -- The search ends here, whatever the layers below would have come to.
    · exact ⟨([], some ⟨place, value, expiry⟩), u, 1, rfl, rfl, .hit (k := 0) ⟨rfl, .nil⟩⟩

end

/-! ### Reading -/

namespace Stack

/-- The answer of a read, and its calls, by what the fetches come to. -/
inductive Reading (layers : List (Layer σ V)) (id : String)
    (outcomes : List (Except StoreError (Option (V × Int64)))) :
    Except StoreError (Option V) → List (LayerCall V) → Prop
  /-- The first layer that has the identifier answers.  The layers up to it are asked, and each
  above it gets one copy with its expiry. -/
  | hit {k : Nat} {value : V} {expiry : Int64} (first : FirstHit outcomes k value expiry) :
      Reading layers id outcomes (.ok (some value))
        (fetches id 0 (k + 1) ++ stores id value expiry 0 k)
  /-- No layer has it and none failed: it is absent, and nothing is written. -/
  | absent (nowhere : ∀ outcome ∈ outcomes, outcome = .ok none) :
      Reading layers id outcomes (.ok none) (fetches id 0 layers.length)
  /-- No layer has it, and those that failed are listed in order, each under its name with its
  error; nothing is written. -/
  | failed {failures : List (MemberFailure StoreError)} (missed : Missed outcomes)
      (reported : failures ≠ []) (places : Ascending 0 layers.length failures)
      (causes : ∀ f, f ∈ failures ↔ ∃ i l e, layers[i]? = some l ∧
        outcomes[i]? = some (.error e) ∧ f = ⟨i, l.label, e⟩) :
      Reading layers id outcomes (.error (.partialFailure "read" layers.length failures))
        (fetches id 0 layers.length)

variable (stack : Stack σ V) (now : Int64) (id : String)

/-- What the layers answer when each of them is fetched from in turn. -/
def fetched (s : σ) : List (Except StoreError (Option (V × Int64))) :=
  (attemptEach (fun l => l.fetch now id) stack.layers s).1

/-- Where no layer has the identifier, the failures alone decide. -/
theorem reading_of_missed {outcomes : List (Except StoreError (Option (V × Int64)))}
    {layers : List (Layer σ V)} (hlength : outcomes.length = layers.length)
    (hmissed : Missed outcomes) :
    Reading layers id outcomes
      (match failuresFrom Layer.label 0 layers outcomes with
        | [] => .ok none
        | failures => .error (.partialFailure "read" layers.length failures))
      (fetches id 0 layers.length) := by
  split
  · next hnil =>
    have hresults := (failuresFrom_eq_nil_iff hlength).1 hnil
    refine .absent fun outcome houtcome => ?_
    obtain ⟨_ | found, -, rfl⟩ := List.mem_map.1 (hresults ▸ houtcome)
    · rfl
    · exact absurd houtcome (hmissed found)
  · next hsome =>
    have hplaces := failuresFrom_ascending Layer.label 0 layers outcomes
    rw [Nat.zero_add] at hplaces
    refine .failed hmissed hsome hplaces fun f => ?_
    simp only [mem_failuresFrom, Nat.zero_add]

/-- **A read is the first hit**: what it answers and calls. -/
theorem reading_calls (s : σ) :
    ∃ answer t calls,
      stack.read now id s = (answer, t) ∧
      stack.noted.read now id (s, []) = (answer, t, calls) ∧
      Reading stack.layers id (stack.fetched now id s) answer calls := by
  obtain ⟨searched, t, asked, hplain, hnoted, hsearched⟩ :=
    searchFrom_noted now id stack.layers 0 s []
  rw [List.nil_append] at hnoted
  have hnoted' : searchFrom now id 0 stack.noted.layers (s, []) = _ := hnoted
  have hlength : stack.noted.layers.length = stack.layers.length := length_notedFrom 0 _
  simp only [Stack.read, hplain, hnoted', hlength]
  cases hsearched with
  | @hit failures k value expiry hfirst =>
    have htake : stack.noted.layers.take (0 + k) = notedFrom 0 (stack.layers.take (0 + k)) :=
      take_notedFrom 0 (0 + k) stack.layers
    have hcount : (stack.layers.take (0 + k)).length = k := by
      have hk := (List.getElem?_eq_some_iff.1 hfirst.hit).1
      rw [length_attemptEach] at hk
      rw [List.length_take]
      omega
    simp only [htake, populate_noted, hcount]
    exact ⟨_, _, _, rfl, rfl, .hit hfirst⟩
  | miss hmissed =>
    have hreading := reading_of_missed id (length_attemptEach _ stack.layers s) hmissed
    revert hreading
    generalize failuresFrom Layer.label 0 stack.layers _ = failures
    intro hreading
    cases failures with
    | nil => exact ⟨_, _, _, rfl, rfl, hreading⟩
    | cons f failures => exact ⟨_, _, _, rfl, rfl, hreading⟩

variable {stack now id}

/-- An update that cannot read ends as the read did. -/
theorem update_of_error {derive : Option V → V} {s t : σ} {e : StoreError}
    (hread : stack.read now id s = (.error e, t)) :
    stack.update now id derive s = (.error e, t) :=
  Action.bind_error hread _

/-- An update that can read ends as the write of what it derives. -/
theorem update_of_ok {derive : Option V → V} {s t u : σ} {found? : Option V}
    {result : Except StoreError Unit} (hread : stack.read now id s = (.ok found?, t))
    (hwrite : stack.write now id (derive found?) t = (result, u)) :
    stack.update now id derive s = (result.map fun _ => derive found?, u) := by
  have hupdate : stack.update now id derive s = _ := Action.bind_ok hread _
  rw [hupdate]
  cases result with
  | error e => exact Action.bind_error hwrite _
  | ok _ => exact Action.bind_ok hwrite _

/-- **One layered read is the first hit, and nothing is hidden.**  A read answers and calls as
`Reading` says, by what the fetches of its layers come to.  An update of which the read fails
ends in that error and calls nothing more; any other stores what it derives from the answer into
every layer, in order, and ends as that write does. -/
theorem read_update_calls (stack : Stack σ V) (now : Int64) (id : String) (derive : Option V → V)
    (s : σ) :
    ∃ answer t calls,
      stack.read now id s = (answer, t) ∧
      stack.noted.read now id (s, []) = (answer, t, calls) ∧
      Reading stack.layers id (stack.fetched now id s) answer calls ∧
      match answer with
      | .error e =>
        stack.update now id derive s = (.error e, t) ∧
        stack.noted.update now id derive (s, []) = (.error e, t, calls)
      | .ok found? =>
        ∃ result u,
          stack.write now id (derive found?) t = (result, u) ∧
          stack.update now id derive s = (result.map fun _ => derive found?, u) ∧
          stack.noted.update now id derive (s, []) = (result.map fun _ => derive found?, u,
            calls ++ stores id (derive found?) (expiryAfter now stack.lifespan) 0
              stack.layers.length) := by
  obtain ⟨answer, t, calls, hread, hnoted, hreading⟩ := stack.reading_calls now id s
  refine ⟨answer, t, calls, hread, hnoted, hreading, ?_⟩
  cases answer with
  | error e => exact ⟨update_of_error hread, update_of_error hnoted⟩
  | ok found? =>
    rcases hwrite : stack.write now id (derive found?) t with ⟨result, u⟩
    have hwatched := write_noted hwrite calls
    exact ⟨result, u, hwrite, update_of_ok hread hwrite, update_of_ok hnoted hwatched⟩

end Stack

end LayeredStore
