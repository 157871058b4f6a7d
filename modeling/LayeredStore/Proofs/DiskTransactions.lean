import LayeredStore.Proofs.MapEquivalence

/-! # Transactions on disk

A request on a disk map works on a copy of the raw map, and the copy replaces the map only if the
request ends in an answer (`DiskMap.perform_eq_transaction`).  This matters: a put stores its bytes,
and a removal erases the key, before what was there is decoded, so where the decoding fails the
copy has changed already (`DiskMap.body_apply`).  A request fails exactly if raw bytes that it has
to decode are too short for the header (`DiskMap.transact_error_iff`), and it says how long they
are.  All that the requests themselves write has a header, so from an empty map on none of them
ever fails (`DiskMap.failures_roll_back`).
-/
namespace LayeredStore

namespace Action

variable {σ ε α : Type}

/-- Carry out an action on a copy of the state, which is kept only if the action ends in a value. -/
def transaction (x : Action σ ε α) : Action σ ε α := fun s =>
  match x s with
  | (.ok a, t) => (.ok a, t)
  | (.error e, _) => (.error e, s)

/-- A transaction that fails has no effect. -/
theorem transaction_error {x : Action σ ε α} {s t : σ} {e : ε}
    (h : x.transaction s = (.error e, t)) : t = s := by
  unfold transaction at h
  split at h
  · cases h
  · cases h; rfl

end Action

namespace DiskMap

/-! ### What requests do inside a transaction -/

/-- The raw bytes of a key. -/
def fetch (key : String) : Action DiskMap StorageFailure (Option Bytes) :=
  .inspect fun m => m.get? key

/-- Store raw bytes under a key; the answer is the raw bytes they replace. -/
def store (key : String) (raw : Bytes) : Action DiskMap StorageFailure (Option Bytes) := fun m =>
  (.ok (m.get? key), m.insert key raw)

/-- Erase a key; the answer is the raw bytes it had. -/
def discard (key : String) : Action DiskMap StorageFailure (Option Bytes) := fun m =>
  (.ok (m.get? key), m.erase key)

/-- Erase the keys of entries one after another. -/
def discardAll : List (String × Entry) → Action DiskMap StorageFailure Unit
  | [] => pure ()
  | (key, _) :: rest => do
    let _ ← discard key
    discardAll rest

/-- The live entry of raw bytes that may be there. -/
def liveOf (now : Int64) : Option Bytes → Action DiskMap StorageFailure (Option Entry)
  | some raw => .ofExcept (decodeLive now raw)
  | none => pure none

/-- Every entry, in key order. -/
def entries : Action DiskMap StorageFailure (List (String × Entry)) := do
  let pairs ← .inspect Dictionary.toList
  .ofExcept (decodeAll pairs)

/-- What a request does to the copy, step by step. -/
def body (now : Int64) : (r : Request) → Action DiskMap StorageFailure r.Answer
  | .get key => do
    let e? ← liveOf now (← fetch key)
    return e?.map Entry.value
  | .put key value expiry => do
    let e? ← liveOf now (← store key (encode ⟨value, expiry⟩))
    return e?.map Entry.value
  | .remove key => do
    let e? ← liveOf now (← discard key)
    return e?.map Entry.value
  | .keys value? => do
    let entries ← entries
    return KeySet.ofKeys ((entries.filter fun (_, e) =>
      e.isLive now && value?.all (· == e.value)).map Prod.fst)
  | .expiry key => do
    let e? ← liveOf now (← fetch key)
    return e?.map Entry.expiry
  | .setExpiry key expiry => do
    match ← liveOf now (← fetch key) with
    | some e =>
      let _ ← store key (encode ⟨e.value, expiry⟩)
      return true
    | none => return false
  | .upkeep .setup => pure ()
  | .upkeep .teardown => .change fun _ => .empty
  | .upkeep .maintenance => do
    let entries ← entries
    discardAll (entries.filter fun (_, e) => !e.isLive now)
  | .upkeep .incremental => pure ()
  | .upkeep .clear => .change fun _ => .empty

theorem discardAll_apply (expired : List (String × Entry)) (m : DiskMap) :
    discardAll expired m = (.ok (), expired.foldl (fun m (key, _) => m.erase key) m) := by
  induction expired generalizing m with
  | nil => rfl
  | cons e rest ih => exact ih _

/-- Decoding the raw bytes that a key had tells its live entry, whatever the copy is by then. -/
theorem liveOf_get? (now : Int64) (key : String) (m copy : DiskMap) :
    liveOf now (m.get? key) copy = (m.live? now key, copy) := by
  rw [live?]
  cases m.get? key <;> rfl

/-- The copy of the raw map when a request fails: a put and a removal have already been made. -/
def touched (m : DiskMap) : Request → DiskMap
  | .put key value expiry => m.insert key (encode ⟨value, expiry⟩)
  | .remove key => m.erase key
  | .get _ | .keys _ | .expiry _ | .setExpiry _ _ | .upkeep _ => m

/-- The steps of a request come to what the transaction commits, and where they fail they may have
changed the copy. -/
theorem body_apply (r : Request) (now : Int64) (m : DiskMap) :
    body now r m = match transact m now r with
      | .ok (a, m') => (.ok a, m')
      | .error failure => (.error failure, m.touched r) := by
  cases r with
  | get key | expiry key | setExpiry key expiry =>
    show (liveOf now (m.get? key) >>= _) m = _
    rw [Action.bind_apply, liveOf_get?, transact]
    rcases m.live? now key with _ | _ | _ <;> rfl
  -- The answer is decoded from what was there before, but in the copy after the change.
  | put key value expiry =>
    show (liveOf now (m.get? key) >>= _) (m.insert key _) = _
    rw [Action.bind_apply, liveOf_get?, transact]
    cases m.live? now key <;> rfl
  | remove key =>
    show (liveOf now (m.get? key) >>= _) (m.erase key) = _
    rw [Action.bind_apply, liveOf_get?, transact]
    cases m.live? now key <;> rfl
  | keys value? =>
    show (Action.ofExcept (decodeAll m.toList) >>= _) m = _
    rw [Action.bind_apply, transact]
    simp only [Action.ofExcept]
    cases decodeAll m.toList <;> rfl
  | upkeep verb =>
    cases verb with
    | setup | teardown | incremental | clear => rfl
    | maintenance =>
      show (Action.ofExcept (decodeAll m.toList) >>= _) m = _
      rw [Action.bind_apply, transact]
      simp only [Action.ofExcept, discardAll_apply]
      cases decodeAll m.toList <;> rfl

/-- **A request is a transaction around its steps.** -/
theorem perform_eq_transaction (r : Request) (now : Int64) :
    perform r now = (body now r).transaction := by
  funext m
  rw [perform, Action.transaction, body_apply]
  cases transact m now r <;> rfl

/-! ### Which requests fail -/

/-- The request has to decode the raw bytes of the key, if there are any. -/
def Decodes (r : Request) (key : String) : Prop :=
  match r with
  | .get k | .put k _ _ | .remove k | .expiry k | .setExpiry k _ => key = k
  | .keys _ | .upkeep .maintenance => True
  | .upkeep .setup | .upkeep .teardown | .upkeep .incremental | .upkeep .clear => False

theorem live?_eq_error_iff {m : DiskMap} {now : Int64} {key : String} {failure : StorageFailure} :
    m.live? now key = .error failure ↔
      ∃ raw, m.get? key = some raw ∧ raw.length < headerLength ∧ tooShort raw = failure := by
  rw [live?]
  cases m.get? key with
  | none => simp
  | some raw =>
    simp only [Option.some.injEq, exists_eq_left', ← decode_eq_error_iff, decodeLive]
    cases decode raw <;> simp

/-- Decoding all entries fails at the first that is damaged. -/
theorem decodeAll_eq_error {pairs : List (String × Bytes)} {failure : StorageFailure}
    (h : decodeAll pairs = .error failure) :
    ∃ e ∈ pairs, e.2.length < headerLength ∧ tooShort e.2 = failure := by
  induction pairs with
  | nil => cases h
  | cons e rest ih =>
    rw [decodeAll] at h
    split at h
    · next failure' hfirst =>
      cases h
      exact ⟨e, List.mem_cons_self, decode_eq_error_iff.1 hfirst⟩
    · split at h
      · next failure' hrest =>
        cases h
        obtain ⟨e', he', hdamaged⟩ := ih hrest
        exact ⟨e', List.mem_cons_of_mem _ he', hdamaged⟩
      · cases h

theorem decodeAll_error_of_mem {pairs : List (String × Bytes)} {e : String × Bytes} (h : e ∈ pairs)
    (hshort : e.2.length < headerLength) : ∃ failure, decodeAll pairs = .error failure := by
  induction pairs with
  | nil => cases h
  | cons first rest ih =>
    rw [decodeAll]
    rcases List.mem_cons.1 h with rfl | h
    · rw [decode_eq_error_iff.2 ⟨hshort, rfl⟩]
      exact ⟨_, rfl⟩
    · obtain ⟨failure, hrest⟩ := ih h
      rw [hrest]
      cases decode first.2 <;> exact ⟨_, rfl⟩

theorem map_eq_error_iff {ε α β : Type} {x : Except ε α} {f : α → β} {e : ε} :
    x.map f = .error e ↔ x = .error e := by
  cases x <;> simp [Except.map]

/-- A failed transaction tells of damaged raw bytes that it had to decode. -/
theorem transact_error {r : Request} {now : Int64} {m : DiskMap} {failure : StorageFailure}
    (h : transact m now r = .error failure) :
    ∃ key raw, Decodes r key ∧ m.get? key = some raw ∧ raw.length < headerLength ∧
      tooShort raw = failure := by
  -- Listing and maintenance decode all entries, and the others at most one.
  have hlisted (hall : decodeAll m.toList = .error failure) : ∃ key raw, m.get? key = some raw ∧
      raw.length < headerLength ∧ tooShort raw = failure := by
    obtain ⟨⟨key, raw⟩, hmem, hshort, hfailure⟩ := decodeAll_eq_error hall
    exact ⟨key, raw, (Dictionary.get?_eq_some_iff m key raw).2 hmem, hshort, hfailure⟩
  cases r with
  | get key | put key value expiry | remove key | expiry key | setExpiry key expiry =>
    obtain ⟨raw, hraw⟩ := live?_eq_error_iff.1 (map_eq_error_iff.1 h)
    exact ⟨key, raw, rfl, hraw⟩
  | keys value? =>
    obtain ⟨key, raw, hraw⟩ := hlisted (map_eq_error_iff.1 h)
    exact ⟨key, raw, trivial, hraw⟩
  | upkeep verb =>
    cases verb with
    | setup | teardown | incremental | clear => cases h
    | maintenance =>
      obtain ⟨key, raw, hraw⟩ := hlisted (map_eq_error_iff.1 h)
      exact ⟨key, raw, trivial, hraw⟩

/-- **A transaction fails exactly if raw bytes that it has to decode are damaged.** -/
theorem transact_error_iff (r : Request) (now : Int64) (m : DiskMap) :
    (∃ failure, transact m now r = .error failure) ↔
      ∃ key raw, Decodes r key ∧ m.get? key = some raw ∧ raw.length < headerLength := by
  constructor
  · rintro ⟨failure, h⟩
    obtain ⟨key, raw, hr, hraw, hshort, -⟩ := transact_error h
    exact ⟨key, raw, hr, hraw, hshort⟩
  · rintro ⟨key, raw, hr, hraw, hshort⟩
    have hlive : m.live? now key = .error (tooShort raw) :=
      live?_eq_error_iff.2 ⟨raw, hraw, hshort, rfl⟩
    have hall : ∃ failure, decodeAll m.toList = .error failure :=
      decodeAll_error_of_mem ((Dictionary.get?_eq_some_iff m key raw).1 hraw) hshort
    cases r with
    | get k | put k value expiry | remove k | expiry k | setExpiry k expiry =>
      obtain rfl : key = k := hr
      exact ⟨_, map_eq_error_iff.2 hlive⟩
    | keys value? => exact hall.imp fun _ => map_eq_error_iff.2
    | upkeep verb =>
      cases verb with
      | setup | teardown | incremental | clear => exact hr.elim
      | maintenance => exact hall.imp fun _ => map_eq_error_iff.2

/-! ### Runs -/

/-- Requests on an intact map are all answered, and the map stays intact. -/
theorem Intact.run {m : DiskMap} (h : Intact m) (name : String) (requests : Requests) :
    (∀ reply ∈ ((backend name).run requests m).1, ∃ a, reply.2 = .ok a) ∧
      Intact ((backend name).run requests m).2 := by
  induction requests generalizing m with
  | nil => exact ⟨List.forall_mem_nil _, h⟩
  | cons q rest ih =>
    obtain ⟨now, r⟩ := q
    obtain ⟨a, m', hok, h'⟩ := succeeds name r now m h
    obtain ⟨hreplies, hintact⟩ := ih h'
    simp only [Backend.run, hok]
    exact ⟨List.forall_mem_cons.2 ⟨⟨a, rfl⟩, hreplies⟩, hintact⟩

theorem perform_eq_error {r : Request} {now : Int64} {m m' : DiskMap} {failure : StorageFailure} :
    perform r now m = (.error failure, m') ↔ transact m now r = .error failure ∧ m' = m := by
  unfold perform
  cases transact m now r <;> simp [eq_comm]

/-- **Failures roll back, and a map never finds its own data damaged.**  On any raw map, a request
that fails leaves every raw entry as it was, although its steps may have changed the copy, and it
tells how long the raw bytes are that it could not decode.  It fails exactly if raw bytes that it
has to decode are too short for the header.  From the empty map on, at whatever times, every
request of every sequence is answered, and all raw bytes have a whole header. -/
theorem failures_roll_back (name : String) :
    (∀ (r : Request) (now : Int64) (m m' : DiskMap) (failure : StorageFailure),
      (backend name).perform r now m = (.error failure, m') →
        m' = m ∧ body now r m = (.error failure, m.touched r) ∧
          ∃ key raw, Decodes r key ∧ m.get? key = some raw ∧ raw.length < headerLength ∧
            failure = .corrupted ("stored value is " ++ toString raw.length ++
              " bytes, shorter than the expiry header")) ∧
      (∀ (r : Request) (now : Int64) (m : DiskMap),
        (∃ failure m', (backend name).perform r now m = (.error failure, m')) ↔
          ∃ key raw, Decodes r key ∧ m.get? key = some raw ∧ raw.length < headerLength) ∧
      ∀ requests : Requests,
        (∀ reply ∈ ((backend name).run requests .empty).1, ∃ a, reply.2 = .ok a) ∧
          ∀ key raw, ((backend name).run requests .empty).2.get? key = some raw →
            headerLength ≤ raw.length := by
  refine ⟨fun r now m m' failure h => ?_, fun r now m => ?_, Intact.empty.run name⟩
  · have hcommit : (body now r).transaction m = (.error failure, m') := by
      rw [← perform_eq_transaction]
      exact h
    obtain ⟨htransact, -⟩ := perform_eq_error.1 h
    obtain ⟨key, raw, hr, hraw, hshort, hfailure⟩ := transact_error htransact
    refine ⟨Action.transaction_error hcommit, ?_, key, raw, hr, hraw, hshort, hfailure.symm⟩
    rw [body_apply, htransact]
  · rw [← transact_error_iff r now m]
    simp only [backend, perform_eq_error, exists_and_left, exists_eq, and_true]

/-- A map with two raw bytes under a key, too few for a header. -/
def damaged : DiskMap := .ofList [("k", [1, 2])]

/-- A put over damaged raw bytes fails after it has stored its own, and they are not kept. -/
theorem failures_roll_back_damaged :
    ∃ failure, (backend "redb:m").perform (.put "k" [7] 0) 5 damaged = (.error failure, damaged) ∧
      body 5 (.put "k" [7] 0) damaged =
        (.error failure, damaged.insert "k" (encode ⟨[7], 0⟩)) ∧
      damaged.insert "k" (encode ⟨[7], 0⟩) ≠ damaged := by
  have hfails : (backend "redb:m").perform (.put "k" [7] 0) 5 damaged =
      (.error (tooShort [1, 2]), damaged) := by
    simp only [backend, perform]
    rw [transact, live?_eq_error_iff.2 ⟨[1, 2], rfl, by decide, rfl⟩]
    rfl
  obtain ⟨-, hbody, -⟩ := (failures_roll_back "redb:m").1 _ _ _ _ _ hfails
  exact ⟨_, hfails, hbody, by decide +kernel⟩

end DiskMap
end LayeredStore
