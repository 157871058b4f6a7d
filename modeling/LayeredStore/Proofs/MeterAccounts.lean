import LayeredStore.Proofs.MapEquivalence
import LayeredStore.Proofs.SiteVault

/-! # What a meter counts

A run on a backend is a log of its requests with what came of them, and of the resets in
between (`MeterStep.run`).  A metered backend has the log of the backend below it and leaves
that in the same state, and its counts are an account of the replies since the last reset
(`MeterStep.run_metered`): each counted request adds what `Stats.Account` says, and no other
changes a count.

Reads, writes, deletions and scans are counted with their failures.  Expiry and upkeep requests
are passed on uncounted, so a failure of theirs is no error in the account.
-/
namespace LayeredStore

/-- A step of a metered backend. -/
inductive MeterStep
  /-- Make a request at a time. -/
  | request (now : Int64) (r : Request)
  /-- Start counting from nothing. -/
  | reset

/-- Take steps one after another: the replies, with nothing where there was a reset, and the
state left behind. -/
def MeterStep.run {σ : Type} (b : Backend σ) (reset : σ → σ) :
    List MeterStep → σ → List (Option Reply) × σ
  | [], s => ([], s)
  | .request now r :: rest, s =>
    match b.perform r now s with
    | (outcome, s) =>
      match run b reset rest s with
      | (log, s) => (some ⟨r, outcome⟩ :: log, s)
  | .reset :: rest, s =>
    match run b reset rest (reset s) with
    | (log, s) => (none :: log, s)

/-- The replies since the last reset in a log, where some came before the log. -/
def sinceReset (before : List Reply) (log : List (Option Reply)) : List Reply :=
  log.foldl (fun since reply? => reply?.elim [] fun reply => since ++ [reply]) before

/-- A request that a meter counts. -/
def Request.isCounted (r : Request) : Bool :=
  match r with
  | .get _ | .put _ _ _ | .remove _ | .keys _ => true
  | .expiry _ | .setExpiry _ _ | .upkeep _ => false

namespace Reply

/-- The request failed. -/
def failed (reply : Reply) : Bool :=
  match reply.2 with
  | .ok _ => false
  | .error _ => true

/-- What a read found, if it did not fail. -/
def found? : Reply → Option (Option Bytes)
  | ⟨.get _, outcome⟩ => Except.toOption (outcome : Except StorageFailure (Option Bytes))
  | _ => none

/-- A read that found a value. -/
def isHit (reply : Reply) : Bool := reply.found?.any Option.isSome

/-- A read that found nothing. -/
def isMiss (reply : Reply) : Bool := reply.found?.any Option.isNone

/-- A read that failed. -/
def isFailedGet (reply : Reply) : Bool := reply.1.call == .get && reply.failed

/-- A reply is one of the three just when it is one to a read, and then it is only one. -/
theorem hit_or_miss_or_failed (reply : Reply) :
    (if reply.isHit then 1 else 0) + (if reply.isMiss then 1 else 0) +
        (if reply.isFailedGet then 1 else 0) =
      if reply.1.call == .get then 1 else 0 := by
  obtain ⟨r, outcome⟩ := reply
  cases r with
  | get key => rcases outcome with failure | _ | value <;> rfl
  | put | remove | keys | expiry | setExpiry | upkeep => rfl

end Reply

namespace Stats

/-- Each count goes up by one for the replies that it counts. -/
theorem count_eq (stats : Stats) (r : Request) (outcome : Except StorageFailure r.Answer) :
    stats.count r outcome =
      ⟨stats.gets + (if r.call == .get then 1 else 0),
        stats.hits + (if Reply.isHit ⟨r, outcome⟩ then 1 else 0),
        stats.misses + (if Reply.isMiss ⟨r, outcome⟩ then 1 else 0),
        stats.puts + (if r.call == .put then 1 else 0),
        stats.removes + (if r.call == .remove then 1 else 0),
        stats.keys + (if r.call == .keys then 1 else 0),
        stats.errors + (if r.isCounted && Reply.failed ⟨r, outcome⟩ then 1 else 0)⟩ := by
  cases r with
  | get => rcases outcome with failure | _ | value <;> rfl
  | put | remove | keys => cases outcome <;> rfl
  | expiry | setExpiry | upkeep => rfl

/-- The counts are those of replies. -/
structure Account (stats : Stats) (replies : List Reply) : Prop where
  gets : stats.gets = replies.countP (·.1.call == .get)
  hits : stats.hits = replies.countP Reply.isHit
  misses : stats.misses = replies.countP Reply.isMiss
  puts : stats.puts = replies.countP (·.1.call == .put)
  removes : stats.removes = replies.countP (·.1.call == .remove)
  keys : stats.keys = replies.countP (·.1.call == .keys)
  errors : stats.errors = replies.countP fun reply => reply.1.isCounted && reply.failed

namespace Account

variable {stats : Stats} {replies : List Reply}

/-- Nothing is the account of nothing. -/
theorem nothing : Stats.none.Account [] := ⟨rfl, rfl, rfl, rfl, rfl, rfl, rfl⟩

/-- **Counting a request with its outcome keeps the account.** -/
theorem count (h : stats.Account replies) (r : Request) (outcome : Except StorageFailure r.Answer) :
    (stats.count r outcome).Account (replies ++ [⟨r, outcome⟩]) := by
  have hone : ∀ {n : Nat} {p : Reply → Bool}, n = List.countP p replies →
      n + (if p ⟨r, outcome⟩ then 1 else 0) = List.countP p (replies ++ [⟨r, outcome⟩]) := by
    intro n p hn
    rw [List.countP_append, List.countP_singleton, hn]
  rw [count_eq]
  exact ⟨hone h.gets, hone h.hits, hone h.misses, hone h.puts, hone h.removes, hone h.keys,
    hone h.errors⟩

/-- Every read hits, misses or fails. -/
theorem balance (h : stats.Account replies) :
    stats.hits + stats.misses + replies.countP Reply.isFailedGet = stats.gets := by
  rw [h.hits, h.misses, h.gets]
  clear h
  induction replies with
  | nil => rfl
  | cons reply rest ih =>
    have hone := reply.hit_or_miss_or_failed
    simp only [List.countP_cons]
    omega

/-- The errors in the account and the failures left out of it are all failures. -/
theorem errors_add (h : stats.Account replies) :
    stats.errors + replies.countP (fun reply => !reply.1.isCounted && reply.failed) =
      replies.countP Reply.failed := by
  rw [h.errors, List.countP_eq_countP_filter_add replies Reply.failed (·.1.isCounted),
    List.countP_filter, List.countP_filter]
  simp only [Bool.and_comm]

end Account

end Stats

/-! ### Runs of a metered backend -/

namespace MeterStep

section

variable {σ : Type} (b : Backend σ) (reset : σ → σ) (rest : List MeterStep) (s : σ)

theorem run_request (now : Int64) (r : Request) :
    run b reset (.request now r :: rest) s =
      (some ⟨r, (b.perform r now s).1⟩ :: (run b reset rest (b.perform r now s).2).1,
        (run b reset rest (b.perform r now s).2).2) := rfl

theorem run_reset :
    run b reset (.reset :: rest) s =
      (none :: (run b reset rest (reset s)).1, (run b reset rest (reset s)).2) := rfl

end

variable {σ τ : Type} (b : Backend τ) {p : Place σ τ} {q : Place σ Stats}

/-- A request to a metered backend is one to the backend, which is then counted. -/
theorem perform_metered (apart : p.Independent q) (r : Request) (now : Int64) (s : σ) :
    (((b.within p).metered q).perform r now s).1 = (b.perform r now (p.read s)).1 ∧
      p.read (((b.within p).metered q).perform r now s).2 = (b.perform r now (p.read s)).2 ∧
      q.read (((b.within p).metered q).perform r now s).2 =
        (q.read s).count r (b.perform r now (p.read s)).1 := by
  refine ⟨rfl, ?_, ?_⟩
  · exact (apart.read_of_write _ _).trans (p.read_write _ s)
  · refine (q.read_write _ _).trans ?_
    exact congrArg (fun stats => Stats.count stats r _) (apart.read_of_write' _ s)

/-- **A run of a metered backend is a run of the backend below, and keeps the account.** -/
theorem run_metered (apart : p.Independent q) (steps : List MeterStep) {s : σ}
    {before : List Reply} (h : (q.read s).Account before) :
    (run ((b.within p).metered q) (q.write .none) steps s).1 = (run b id steps (p.read s)).1 ∧
      p.read (run ((b.within p).metered q) (q.write .none) steps s).2 =
        (run b id steps (p.read s)).2 ∧
      (q.read (run ((b.within p).metered q) (q.write .none) steps s).2).Account
        (sinceReset before (run b id steps (p.read s)).1) := by
  induction steps generalizing s before with
  | nil => exact ⟨rfl, rfl, h⟩
  | cons step rest ih =>
    cases step with
    | request now r =>
      obtain ⟨houtcome, hstate, hcount⟩ := perform_metered b apart r now s
      have hnext := h.count r (b.perform r now (p.read s)).1
      rw [← hcount] at hnext
      obtain ⟨hlog, hend, haccount⟩ := ih hnext
      rw [hstate] at hlog hend haccount
      rw [run_request, run_request, houtcome, hlog]
      exact ⟨rfl, hend, haccount⟩
    | reset =>
      have hnext : (q.read (q.write .none s)).Account [] := by
        rw [q.read_write]
        exact .nothing
      obtain ⟨hlog, hend, haccount⟩ := ih hnext
      rw [apart.read_of_write] at hlog hend haccount
      rw [run_reset, run_reset, hlog]
      exact ⟨rfl, hend, haccount⟩

end MeterStep

variable {σ τ : Type} (b : Backend τ) {p : Place σ τ} {q : Place σ Stats}

/-- **A meter is transparent and its counts balance.**  A run on a metered backend, resets
included, has the name, the replies and the final state of the run on the backend alone.  Its
counts are the numbers of reads, writes, deletions and scans among the replies since the last
reset; hits, misses and failed reads are the three kinds of replies to reads, and together they
are all of them. -/
theorem Backend.metered_transparent (apart : p.Independent q) (steps : List MeterStep) {s : σ}
    (fresh : q.read s = .none) :
    ((b.within p).metered q).name = b.name ∧
      ∃ log t s', MeterStep.run b id steps (p.read s) = (log, t) ∧
        MeterStep.run ((b.within p).metered q) (q.write .none) steps s = (log, s') ∧
        p.read s' = t ∧
        (q.read s').gets = (sinceReset [] log).countP (·.1.call == .get) ∧
        (q.read s').puts = (sinceReset [] log).countP (·.1.call == .put) ∧
        (q.read s').removes = (sinceReset [] log).countP (·.1.call == .remove) ∧
        (q.read s').keys = (sinceReset [] log).countP (·.1.call == .keys) ∧
        (q.read s').hits = (sinceReset [] log).countP Reply.isHit ∧
        (q.read s').misses = (sinceReset [] log).countP Reply.isMiss ∧
        (q.read s').hits + (q.read s').misses + (sinceReset [] log).countP Reply.isFailedGet =
          (q.read s').gets := by
  have hstart : (q.read s).Account [] := fresh ▸ .nothing
  obtain ⟨hlog, hstate, haccount⟩ := MeterStep.run_metered b apart steps hstart
  refine ⟨rfl, _, _, _, rfl, Prod.ext hlog rfl, hstate, ?_⟩
  exact ⟨haccount.gets, haccount.puts, haccount.removes, haccount.keys, haccount.hits,
    haccount.misses, haccount.balance⟩

/-- A map on disk with one damaged entry, metered. -/
def damagedMap : Site := Site.restart [(0, "m", "bad", [1])] (.ofVolumes default [.new .disk true])

/-- A write and, after a reset, a hit, a miss, three requests that meet the damaged entry, and one
that does not. -/
def damagedSteps : List MeterStep :=
  [.request 1 (.put "a" [7] 0), .reset, .request 2 (.get "a"), .request 2 (.get "b"),
    .request 3 (.get "bad"), .request 3 (.expiry "bad"), .request 3 (.keys none),
    .request 4 (.setExpiry "a" 9)]

theorem Site.diskMap_independent_counts (i j : MapId) : (diskMap i).Independent (counts j) := by
  by_cases h : i.1 = j.1
  · unfold diskMap counts
    rw [h]
    exact .inside ⟨fun _ _ => rfl, fun _ _ => rfl⟩
  · exact (volume_independent h).inside_left _ _

theorem Backend.metered_transparent_damaged :
    (Site.diskMap (0, "m")).Independent (Site.counts (0, "m")) ∧
      (Site.counts (0, "m")).read damagedMap = .none ∧
      ∃ log s, MeterStep.run (((DiskMap.backend "m").within (Site.diskMap (0, "m"))).metered
          (Site.counts (0, "m"))) ((Site.counts (0, "m")).write .none) damagedSteps damagedMap =
            (log, s) ∧
        ((Site.counts (0, "m")).read s).gets = 3 ∧ ((Site.counts (0, "m")).read s).hits = 1 ∧
        ((Site.counts (0, "m")).read s).misses = 1 ∧
        (sinceReset [] log).countP Reply.isFailedGet = 1 := by
  have apart := Site.diskMap_independent_counts (0, "m") (0, "m")
  have fresh : (Site.counts (0, "m")).read damagedMap = .none := rfl
  obtain ⟨-, log, t, s, hdirect, hmetered, -, hgets, -, -, -, hhits, hmisses, -⟩ :=
    metered_transparent (DiskMap.backend "m") apart damagedSteps fresh
  obtain rfl : (MeterStep.run (DiskMap.backend "m") id damagedSteps
      ((Site.diskMap (0, "m")).read damagedMap)).1 = log := congrArg Prod.fst hdirect
  refine ⟨apart, fresh, _, s, hmetered, hgets.trans ?_, hhits.trans ?_, hmisses.trans ?_, ?_⟩ <;>
    rfl

/-- **Errors are counted but for expiry and upkeep requests.**  The errors of a meter and the
failures of expiry and upkeep requests since the last reset are all failures since then; so the
errors are all failures just when no such request has failed. -/
theorem Backend.metered_errors_iff (apart : p.Independent q) (steps : List MeterStep) {s : σ}
    (fresh : q.read s = .none) :
    ∃ log t s', MeterStep.run b id steps (p.read s) = (log, t) ∧
      MeterStep.run ((b.within p).metered q) (q.write .none) steps s = (log, s') ∧
      (q.read s').errors + (sinceReset [] log).countP
          (fun reply => !reply.1.isCounted && reply.failed) =
        (sinceReset [] log).countP Reply.failed ∧
      ((q.read s').errors = (sinceReset [] log).countP Reply.failed ↔
        ∀ reply ∈ sinceReset [] log, reply.failed = true → reply.1.isCounted = true) := by
  have hstart : (q.read s).Account [] := fresh ▸ .nothing
  obtain ⟨hlog, -, haccount⟩ := MeterStep.run_metered b apart steps hstart
  have hadd := haccount.errors_add
  refine ⟨_, _, _, rfl, Prod.ext hlog rfl, hadd, ?_⟩
  rw [← hadd, Nat.left_eq_add, List.countP_eq_zero]
  refine forall₂_congr fun reply _ => ?_
  cases reply.1.isCounted <;> cases reply.failed <;> simp

theorem Backend.metered_errors_iff_damaged :
    (Site.diskMap (0, "m")).Independent (Site.counts (0, "m")) ∧
      (Site.counts (0, "m")).read damagedMap = .none ∧
      ∃ log s, MeterStep.run (((DiskMap.backend "m").within (Site.diskMap (0, "m"))).metered
          (Site.counts (0, "m"))) ((Site.counts (0, "m")).write .none) damagedSteps damagedMap =
            (log, s) ∧
        (sinceReset [] log).countP Reply.failed = 3 ∧
        ((Site.counts (0, "m")).read s).errors = 2 := by
  have apart := Site.diskMap_independent_counts (0, "m") (0, "m")
  have fresh : (Site.counts (0, "m")).read damagedMap = .none := rfl
  obtain ⟨log, t, s, hdirect, hmetered, hadd, -⟩ :=
    metered_errors_iff (DiskMap.backend "m") apart damagedSteps fresh
  obtain rfl : (MeterStep.run (DiskMap.backend "m") id damagedSteps
      ((Site.diskMap (0, "m")).read damagedMap)).1 = log := congrArg Prod.fst hdirect
  have hfailed : (sinceReset [] (MeterStep.run (DiskMap.backend "m") id damagedSteps
      ((Site.diskMap (0, "m")).read damagedMap)).1).countP Reply.failed = 3 := rfl
  have hleft : (sinceReset [] (MeterStep.run (DiskMap.backend "m") id damagedSteps
      ((Site.diskMap (0, "m")).read damagedMap)).1).countP
        (fun reply => !reply.1.isCounted && reply.failed) = 1 := rfl
  refine ⟨apart, fresh, _, s, hmetered, hfailed, ?_⟩
  omega

end LayeredStore
