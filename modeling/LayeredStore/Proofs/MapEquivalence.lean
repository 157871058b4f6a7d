import LayeredStore.Proofs.MapContract

/-! # Maps in memory and on disk are one map

A backend that keeps an expiring map and never fails gives, to any sequence of requests
made as the clock goes on, the replies of the expiring map (`Backend.Keeps.replies`).  The
expiring map has only one reply to a request, so two such backends cannot be told apart.
-/
namespace LayeredStore

/-- Requests, each with the time at which it is made. -/
abbrev Requests := List (Int64 × Request)

/-- The clock does not go back while requests are made. -/
abbrev Requests.Ordered (requests : Requests) : Prop := requests.Pairwise (·.1 ≤ ·.1)

/-- What came of a request. -/
abbrev Reply := (r : Request) × Except StorageFailure r.Answer

/-- Make requests one after another: what came of each, and the state left behind. -/
def Backend.run {σ : Type} (b : Backend σ) : Requests → σ → List Reply × σ
  | [], s => ([], s)
  | (now, r) :: rest, s =>
    match b.perform r now s with
    | (outcome, s) =>
      match b.run rest s with
      | (replies, s) => (⟨r, outcome⟩ :: replies, s)

namespace ExpiringMap

/-- The map answers requests in turn with these replies; none fails. -/
inductive Replies : ExpiringMap Bytes → Requests → List Reply → Prop
  | nil {m : ExpiringMap Bytes} : Replies m [] []
  | cons {m : ExpiringMap Bytes} {now : Int64} {r : Request} {a : r.Answer} {rest : Requests}
      {replies : List Reply} (answered : m.Answers now r a)
      (others : Replies (m.after now r) rest replies) :
      Replies m ((now, r) :: rest) (⟨r, .ok a⟩ :: replies)

/-- The entries after several requests. -/
def afterAll : ExpiringMap Bytes → Requests → ExpiringMap Bytes
  | m, [] => m
  | m, (now, r) :: rest => (m.after now r).afterAll rest

theorem afterAll_append (m : ExpiringMap Bytes) (earlier later : Requests) :
    m.afterAll (earlier ++ later) = (m.afterAll earlier).afterAll later := by
  induction earlier generalizing m with
  | nil => rfl
  | cons q rest ih => exact ih _

/-- There is only one list of replies. -/
theorem Replies.unique {m : ExpiringMap Bytes} {requests : Requests} {replies others : List Reply}
    (h : m.Replies requests replies) (h' : m.Replies requests others) : replies = others := by
  induction h generalizing others with
  | nil => cases h'; rfl
  | cons answered _ ih =>
    cases h' with
    | cons answered' rest' => rw [answered.unique answered', ih rest']

/-- A key without a live entry gets none back while nothing is stored under it. -/
theorem live?_afterAll_of_none {m : ExpiringMap Bytes} {key : String} {requests : Requests}
    (hput : ∀ q ∈ requests, ∀ value expiry, q.2 ≠ .put key value expiry)
    {now later : Int64} (clock : Requests.Ordered requests) (hfrom : ∀ q ∈ requests, now ≤ q.1)
    (huntil : ∀ q ∈ requests, q.1 ≤ later) (hle : now ≤ later)
    (h : m.live? now key = none) : (m.afterAll requests).live? later key = none := by
  induction requests generalizing m now with
  | nil => exact live?_later_of_none hle h
  | cons q rest ih =>
    obtain ⟨time, r⟩ := q
    obtain ⟨hnext, clock⟩ := List.pairwise_cons.1 clock
    have hdead : m.live? time key = none :=
      live?_later_of_none (hfrom _ List.mem_cons_self) h
    have hstep : (m.after time r).live? time key = none :=
      live?_after_of_none hdead (hput _ List.mem_cons_self)
    exact ih (fun q hq => hput q (List.mem_cons_of_mem _ hq)) clock hnext
      (fun q hq => huntil q (List.mem_cons_of_mem _ hq)) (huntil _ List.mem_cons_self) hstep

end ExpiringMap

open ExpiringMap

/-- **A run of a backend that keeps a map and never fails is a run of the map.** -/
theorem Backend.Keeps.replies {σ : Type} {b : Backend σ} {contents : σ → ExpiringMap Bytes}
    {sound : σ → Prop} (hk : b.Keeps contents) (hs : b.Succeeds sound) {requests : Requests}
    (clock : requests.Ordered) {start : Int64} (hstart : ∀ q ∈ requests, start ≤ q.1) {s : σ}
    (hsound : sound s) {m : ExpiringMap Bytes} (h : AgreeFrom start (contents s) m) :
    m.Replies requests (b.run requests s).1 ∧
      ∀ finish, start ≤ finish → (∀ q ∈ requests, q.1 ≤ finish) →
        AgreeFrom finish (contents (b.run requests s).2) (m.afterAll requests) := by
  induction requests generalizing s m start with
  | nil => exact ⟨.nil, fun finish hle _ => h.later hle⟩
  | cons q rest ih =>
    obtain ⟨now, r⟩ := q
    obtain ⟨hnext, clock⟩ := List.pairwise_cons.1 clock
    obtain ⟨a, s', hok, hsound'⟩ := hs r now s hsound
    obtain ⟨hanswer, hafter⟩ := hk.answered hok
    have hnow : AgreeFrom now (contents s) m := h.later (hstart _ List.mem_cons_self)
    obtain ⟨hreplies, hfinal⟩ := ih clock hnext hsound' (hafter.trans (hnow.after r))
    simp only [Backend.run, hok]
    refine ⟨.cons (hnow.answers hanswer) hreplies, fun finish _ huntil => ?_⟩
    exact hfinal finish (huntil _ List.mem_cons_self)
      fun q hq => huntil q (List.mem_cons_of_mem _ hq)

/-- **Maps in memory and maps on disk implement the same expiring map.**  Started empty,
both give every sequence of requests the replies of the expiring map, and so the same
ones; and a key that is not live stays so until something is stored under it, whatever
else is asked. -/
theorem memory_and_disk_agree (memory disk : String) {requests : Requests}
    (clock : requests.Ordered) :
    ((MemoryMap.backend memory).run requests .empty).1 =
        ((DiskMap.backend disk).run requests .empty).1 ∧
      ExpiringMap.empty.Replies requests ((MemoryMap.backend memory).run requests .empty).1 ∧
      ExpiringMap.empty.Replies requests ((DiskMap.backend disk).run requests .empty).1 ∧
      ∀ earlier since now later key, requests = earlier ++ since →
        (∀ q ∈ since, now ≤ q.1 ∧ q.1 ≤ later) → now ≤ later →
        (ExpiringMap.empty.afterAll earlier).live? now key = none →
        (∀ q ∈ since, ∀ value expiry, q.2 ≠ .put key value expiry) →
        (ExpiringMap.empty.afterAll requests).live? later key = none := by
  have hstart : ∀ q ∈ requests, Int64.minValue ≤ q.1 := fun q _ => Int64.minValue_le q.1
  have hm := ((MemoryMap.keeps memory).replies (MemoryMap.succeeds memory) clock hstart
    (s := .empty) trivial (.of_eq MemoryMap.contents_empty)).1
  have hd := ((DiskMap.keeps disk).replies (DiskMap.succeeds disk) clock hstart
    (s := .empty) .empty (.of_eq DiskMap.contents_empty)).1
  refine ⟨hm.unique hd, hm, hd, ?_⟩
  rintro earlier since now later key rfl hsince hle hdead hput
  rw [afterAll_append]
  exact live?_afterAll_of_none hput (List.pairwise_append.1 clock).2.1
    (fun q hq => (hsince q hq).1) (fun q hq => (hsince q hq).2) hle hdead

/-- A key that is read, expires, and cannot be renewed. -/
def expiringRun : Requests :=
  [(1, .put "k" [7] 3), (2, .get "k"), (3, .get "k"), (4, .setExpiry "k" 9), (5, .keys none)]

theorem memory_and_disk_agree_expiringRun :
    expiringRun.Ordered ∧
      ((MemoryMap.backend "m").run expiringRun .empty).1 =
        ((DiskMap.backend "d").run expiringRun .empty).1 ∧
      (ExpiringMap.empty.afterAll expiringRun).live? 5 "k" = none := by
  have clock : expiringRun.Ordered := by decide
  obtain ⟨hsame, -, -, hdead⟩ := memory_and_disk_agree "m" "d" clock
  refine ⟨clock, hsame, ?_⟩
  exact hdead (expiringRun.take 2) (expiringRun.drop 2) 3 5 "k" rfl (by decide) (by decide)
    rfl (by simp [expiringRun])

end LayeredStore
