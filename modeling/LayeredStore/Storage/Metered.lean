import LayeredStore.Storage.Backend

/-! # Metered backends

A metered backend passes every request on and counts what came of it.  Reads are
counted with their hits and misses, and writes, deletions and scans by number; failures
of these four are counted too.  Expiry and upkeep requests are passed on uncounted.

Counts are numbers without bound.  Counters of 64 bits agree with them as long as none of
them has come to 2^64.
-/
namespace LayeredStore

/-- What a metered backend has counted. -/
structure Stats where
  /-- Reads. -/
  gets : Nat
  /-- Reads that found a value. -/
  hits : Nat
  /-- Reads that found nothing. -/
  misses : Nat
  /-- Writes. -/
  puts : Nat
  /-- Deletions. -/
  removes : Nat
  /-- Scans. -/
  keys : Nat
  /-- Failures of counted requests. -/
  errors : Nat
  deriving DecidableEq

namespace Stats

/-- Nothing counted. -/
def none : Stats := ⟨0, 0, 0, 0, 0, 0, 0⟩

/-- One more failure, if the outcome is one. -/
def countError {α : Type} (s : Stats) : Except StorageFailure α → Stats
  | .ok _ => s
  | .error _ => { s with errors := s.errors + 1 }

/-- Count a request with its outcome. -/
def count (s : Stats) : (r : Request) → Except StorageFailure r.Answer → Stats
  | .get _, outcome =>
    let s := { s with gets := s.gets + 1 }
    match (outcome : Except StorageFailure (Option Bytes)) with
    | .ok (some _) => { s with hits := s.hits + 1 }
    | .ok Option.none => { s with misses := s.misses + 1 }
    | .error _ => { s with errors := s.errors + 1 }
  | .put _ _ _, outcome => { s with puts := s.puts + 1 }.countError outcome
  | .remove _, outcome => { s with removes := s.removes + 1 }.countError outcome
  | .keys _, outcome => { s with keys := s.keys + 1 }.countError outcome
  | .expiry _, _ | .setExpiry _ _, _ | .upkeep _, _ => s

/-- The share of reads that found a value, once there was a read. -/
def hitRatio? (s : Stats) : Option Binary64 :=
  if s.gets = 0 then Option.none else some (Binary64.nearest false s.hits s.gets)

end Stats

/-- The backend with its requests counted in a place. -/
def Backend.metered {σ : Type} (stats : Place σ Stats) (b : Backend σ) : Backend σ :=
  ⟨b.name, fun r now s =>
    match b.perform r now s with
    | (outcome, s) => (outcome, stats.write ((stats.read s).count r outcome) s)⟩

end LayeredStore
