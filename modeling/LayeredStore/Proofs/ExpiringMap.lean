import LayeredStore.Storage.MemoryMap
import Mathlib.Logic.Function.Basic

/-! # Expiring maps

What every store of this library means, apart from how it is laid out: a key has at most
one value, with the time at which it expires.  Only live entries can be observed, and time
does not run backwards, so two maps that have the same live entries now can never again be
told apart (`AgreeFrom.later`).  That is the equality that all refinements below are up to:
a lazy deletion, a sweep and an entry left lying around make no difference to it.

`Answers` and `after` are the meaning of a request: which answer is right, and which
entries there are afterwards.  An answer is determined (`Answers.unique`), so two backends
that both answer rightly answer alike.
-/
namespace LayeredStore

/-! ### Time -/

/-- What has expired stays expired. -/
theorem isExpired_later {expiry now later : Int64} (h : now ≤ later)
    (he : isExpired expiry now = true) : isExpired expiry later = true := by
  simp only [isExpired, Bool.and_eq_true, decide_eq_true_eq] at he ⊢
  exact ⟨he.1, Int64.le_trans he.2 h⟩

/-- What is live was live before. -/
theorem isExpired_earlier {expiry now later : Int64} (h : now ≤ later)
    (he : isExpired expiry later = false) : isExpired expiry now = false :=
  Bool.eq_false_iff.2 fun hn => by simp [isExpired_later h hn] at he

/-- What is written to live is not dead at once, unless time has come to its end. -/
theorem not_isExpired_expiryAfter {now : Int64} (h : now < Int64.maxValue) (lifespan : UInt64) :
    isExpired (expiryAfter now lifespan) now = false := by
  unfold isExpired expiryAfter
  split
  · rfl
  · next hlifespan =>
    have hpos : lifespan.toNat ≠ 0 := fun hzero => hlifespan (UInt64.toNat_inj.1 hzero)
    have hlow := Int64.le_toInt now
    have hlast := Int64.toInt_maxValue
    rw [Int64.lt_iff_toInt_lt, hlast] at h
    have hlater : ¬Int64.ofInt (min (now.toInt + min (lifespan.toNat : Int) Int64.maxValue.toInt)
        Int64.maxValue.toInt) ≤ now := by
      rw [Int64.le_iff_toInt_le, Int64.toInt_ofInt_of_le] <;> rw [hlast] <;> omega
    simp only [hlater, decide_false, Bool.and_false]

/-- The sooner of one expiry and itself. -/
@[simp] theorem earliest_self (expiry : Int64) : earliest expiry expiry = expiry := by
  unfold earliest
  split
  · rfl
  · simp

/-- An expiry that never comes is the later of two. -/
@[simp] theorem earliest_never (expiry : Int64) : earliest neverExpires expiry = expiry := by
  simp [earliest]

/-- Values with their expiries under keys, entries that have expired included. -/
abbrev ExpiringMap (α : Type) := String → Option (α × Int64)

namespace ExpiringMap

variable {α : Type}

/-- The map without entries. -/
def empty : ExpiringMap α := fun _ => none

/-- The entry of a key, unless it has expired. -/
def live? (m : ExpiringMap α) (now : Int64) (key : String) : Option (α × Int64) :=
  (m key).filter fun e => !isExpired e.2 now

/-- The map with another entry, or none, under a key. -/
def set (m : ExpiringMap α) (key : String) (new? : Option (α × Int64)) : ExpiringMap α :=
  Function.update m key new?

/-- Two maps have the same live entries at a time. -/
def AgreeFrom (now : Int64) (m n : ExpiringMap α) : Prop :=
  ∀ key, m.live? now key = n.live? now key

theorem live?_set (m : ExpiringMap α) (now : Int64) (key k : String)
    (new? : Option (α × Int64)) :
    (m.set key new?).live? now k =
      if k = key then new?.filter (fun e => !isExpired e.2 now) else m.live? now k := by
  unfold live? set
  by_cases h : k = key
  · subst h; simp
  · simp [h]

@[simp] theorem live?_set_self (m : ExpiringMap α) (now : Int64) (key : String)
    (new? : Option (α × Int64)) :
    (m.set key new?).live? now key = new?.filter (fun e => !isExpired e.2 now) := by
  rw [live?_set, if_pos rfl]

theorem live?_set_of_ne (m : ExpiringMap α) (now : Int64) {key k : String} (h : k ≠ key)
    (new? : Option (α × Int64)) : (m.set key new?).live? now k = m.live? now k := by
  rw [live?_set, if_neg h]

@[simp] theorem set_set (m : ExpiringMap α) (key : String) (new? : Option (α × Int64)) :
    (m.set key new?).set key new? = m.set key new? := Function.update_idem ..

section

variable {β : Type} (read : String → Option β → Option (α × Int64)) (d : Dictionary String β)
  (key : String)

/-- A map that is read off a dictionary follows an insertion into it. -/
theorem read_insert (b : β) :
    (fun k => read k ((d.insert key b).get? k)) =
      set (fun k => read k (d.get? k)) key (read key (some b)) := by
  funext k
  by_cases hk : k = key
  · subst hk
    simp [set]
  · simp [set, hk, Dictionary.get?_insert_of_ne d (Ne.symm hk)]

/-- A map that is read off a dictionary follows an erasure from it. -/
theorem read_erase :
    (fun k => read k ((d.erase key).get? k)) =
      set (fun k => read k (d.get? k)) key (read key none) := by
  funext k
  by_cases hk : k = key
  · subst hk
    simp [set, Dictionary.get?_erase]
  · simp [set, hk, Dictionary.get?_erase]

end

/-- A live entry has not expired. -/
theorem not_isExpired_of_live? {m : ExpiringMap α} {now : Int64} {key : String}
    {e : α × Int64} (h : m.live? now key = some e) : isExpired e.2 now = false := by
  have := (Option.filter_eq_some_iff.1 h).2
  simpa using this

/-- Liveness at a later time can be told from the entries that are live now. -/
theorem live?_later {now later : Int64} (h : now ≤ later) (m : ExpiringMap α) (key : String) :
    m.live? later key = (m.live? now key).filter fun e => !isExpired e.2 later := by
  unfold live?
  rw [Option.filter_filter]
  refine congrFun (congrArg _ (funext fun e => ?_)) _
  cases hl : isExpired e.2 later with
  | false => simp [isExpired_earlier h hl]
  | true => simp

/-- A key without a live entry never gets one back by waiting. -/
theorem live?_later_of_none {now later : Int64} (h : now ≤ later) {m : ExpiringMap α}
    {key : String} (hn : m.live? now key = none) : m.live? later key = none := by
  rw [live?_later h, hn]; rfl

namespace AgreeFrom

variable {m n p : ExpiringMap α} {now : Int64}

@[refl, simp] theorem refl (now : Int64) (m : ExpiringMap α) : AgreeFrom now m m := fun _ => rfl

@[trans] theorem trans (h : AgreeFrom now m n) (h' : AgreeFrom now n p) : AgreeFrom now m p :=
  fun k => (h k).trans (h' k)

theorem of_eq (h : m = n) : AgreeFrom now m n := h ▸ .refl now m

/-- **Agreement lasts.** -/
theorem later {next : Int64} (ht : now ≤ next) (h : AgreeFrom now m n) : AgreeFrom next m n :=
  fun k => by rw [live?_later ht, live?_later ht n, h]

theorem set (h : AgreeFrom now m n) (key : String) (new? : Option (α × Int64)) :
    AgreeFrom now (m.set key new?) (n.set key new?) := by
  intro k
  rw [live?_set, live?_set, h]

end AgreeFrom

/-- Forgetting an entry that is not live changes nothing. -/
theorem agreeFrom_set_none {m : ExpiringMap α} {now : Int64} {key : String}
    (h : m.live? now key = none) : AgreeFrom now (m.set key none) m := by
  intro k
  rw [live?_set]
  split
  · next hk => rw [hk, h]; rfl
  · rfl

/-! ### The meaning of requests -/

/-- The entries after upkeep: only tearing down and clearing can be noticed. -/
def afterUpkeep (m : ExpiringMap α) : Upkeep → ExpiringMap α
  | .setup | .maintenance | .incremental => m
  | .teardown | .clear => empty

@[simp] theorem afterUpkeep_afterUpkeep (m : ExpiringMap α) (verb : Upkeep) :
    (m.afterUpkeep verb).afterUpkeep verb = m.afterUpkeep verb := by
  cases verb <;> rfl

/-- The entries after a request at a time. -/
def after (m : ExpiringMap Bytes) (now : Int64) : Request → ExpiringMap Bytes
  | .get _ | .keys _ | .expiry _ => m
  | .put key value expiry => m.set key (some (value, expiry))
  | .remove key => m.set key none
  | .setExpiry key expiry =>
    match m.live? now key with
    | some e => m.set key (some (e.1, expiry))
    | none => m
  | .upkeep verb => m.afterUpkeep verb

/-- Whether an answer to a request at a time is right. -/
def Answers (m : ExpiringMap Bytes) (now : Int64) : (r : Request) → r.Answer → Prop
  | .get key, value? => value? = (m.live? now key).map Prod.fst
  | .put key _ _, value? => value? = (m.live? now key).map Prod.fst
  | .remove key, value? => value? = (m.live? now key).map Prod.fst
  | .keys wanted?, keys =>
    ∀ key, Dictionary.contains keys key = true ↔
      ∃ e, m.live? now key = some e ∧ ∀ wanted ∈ wanted?, e.1 = wanted
  | .expiry key, expiry? => expiry? = (m.live? now key).map Prod.snd
  | .setExpiry key _, found => found = (m.live? now key).isSome
  | .upkeep _, _ => True

theorem AgreeFrom.afterUpkeep {m n : ExpiringMap α} {now : Int64} (h : AgreeFrom now m n)
    (verb : Upkeep) : AgreeFrom now (m.afterUpkeep verb) (n.afterUpkeep verb) := by
  cases verb with
  | setup | maintenance | incremental => exact h
  | teardown | clear => exact .refl now _

/-- Maps that agree still agree after the same request. -/
theorem AgreeFrom.after {m n : ExpiringMap Bytes} {now : Int64} (h : AgreeFrom now m n)
    (r : Request) : AgreeFrom now (m.after now r) (n.after now r) := by
  cases r with
  | get | keys | expiry => exact h
  | put key value expiry => exact h.set key _
  | remove key => exact h.set key _
  | setExpiry key expiry =>
    simp only [ExpiringMap.after, h key]
    split
    · exact h.set key _
    · exact h
  | upkeep verb => exact h.afterUpkeep verb

/-- Maps that agree have the same right answers. -/
theorem AgreeFrom.answers {m n : ExpiringMap Bytes} {now : Int64} (h : AgreeFrom now m n)
    {r : Request} {a : r.Answer} (ha : m.Answers now r a) : n.Answers now r a := by
  cases r with
  | get key | put key | remove key | expiry key | setExpiry key =>
    simpa only [Answers, h key] using ha
  | keys wanted? => intro key; rw [ha key, h key]
  | upkeep => trivial

end ExpiringMap

/-- Two key sets with the same members are equal. -/
theorem KeySet.ext_contains {a b : KeySet}
    (h : ∀ key, Dictionary.contains a key = true ↔ Dictionary.contains b key = true) : a = b :=
  Dictionary.ext_get? fun key => by
    have := h key
    unfold Dictionary.contains at this
    cases ha : a.get? key <;> cases hb : b.get? key <;> simp_all

/-- **An answer is determined** by the live entries. -/
theorem ExpiringMap.Answers.unique {m : ExpiringMap Bytes} {now : Int64} {r : Request}
    {a b : r.Answer} (ha : m.Answers now r a) (hb : m.Answers now r b) : a = b := by
  cases r with
  | get | put | remove | expiry | setExpiry => exact Eq.trans ha (Eq.symm hb)
  | keys => exact KeySet.ext_contains fun key => (ha key).trans (hb key).symm
  | upkeep => rfl

/-- A request that does not store a key cannot bring it back. -/
theorem ExpiringMap.live?_after_of_none {m : ExpiringMap Bytes} {now : Int64} {key : String}
    {r : Request} (h : m.live? now key = none)
    (hr : ∀ value expiry, r ≠ .put key value expiry) : (m.after now r).live? now key = none := by
  cases r with
  | get | keys | expiry => exact h
  | put k value expiry =>
    have hk : key ≠ k := fun he => hr value expiry (he ▸ rfl)
    rw [after, live?_set_of_ne _ _ hk, h]
  | remove k =>
    rw [after, live?_set]
    split
    · rfl
    · exact h
  | setExpiry k expiry =>
    simp only [after]
    split
    · next e he =>
      have hk : key ≠ k := fun hk => by rw [← hk, h] at he; cases he
      rw [live?_set_of_ne _ _ hk, h]
    · exact h
  | upkeep verb => cases verb <;> first | exact h | rfl

end LayeredStore
