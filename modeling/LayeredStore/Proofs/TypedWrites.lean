import LayeredStore.Proofs.ExactWrites
import LayeredStore.Proofs.StoredValues
import LayeredStore.Storage.TypedMap

/-! # Writes through typed maps

A typed map has its backend write first, and reads the value that was replaced afterwards.  So a
typed write that fails has either been refused by the backend, and then nothing has changed, or it
has been carried out and only its answer could not be read (`TypedMap.failed_write_iff`).

What a map holds after any number of typed writes is told by the writes alone, whichever of them
failed to read what they replaced (`TypedMap.writeAll_contents`).
-/
namespace LayeredStore

open ExpiringMap

namespace TypedMap

/-- A write through a typed map. -/
inductive Write (α : Type)
  /-- Store a datum with an expiry. -/
  | put (key : String) (a : α) (expiry : Int64)
  /-- Delete a key. -/
  | remove (key : String)

namespace Write

variable {α : Type}

/-- The key that is written. -/
def key : Write α → String
  | put key _ _ | remove key => key

/-- The entry that the key gets. -/
def new? : Write α → Option (α × Int64)
  | put _ a expiry => some (a, expiry)
  | remove _ => none

/-- The same with the datum in its stored form. -/
def stored? [Stored α] (w : Write α) : Option (Bytes × Int64) :=
  w.new?.map fun e => (Stored.bytes e.1, e.2)

end Write

variable {σ α : Type} [Stored α] (m : TypedMap σ α) (now : Int64)

/-- Make a write; the answer is the live datum that it replaces. -/
def write : Write α → Action σ StorageFailure (Option α)
  | .put key a expiry => m.put now key a expiry
  | .remove key => m.remove now key

/-- What the backend does in a write; its answer are the live bytes that are replaced. -/
def underneath : Write α → Action σ StorageFailure (Option Bytes)
  | .put key a expiry => m.backend.put now key (Stored.bytes a) expiry
  | .remove key => m.backend.remove now key

/-- The failure over bytes that are no stored form. -/
def illegible (key : String) : StorageFailure :=
  .serialization
    ("failed to deserialize value for key '" ++ key ++ "' in '" ++ m.backend.name ++ "': <json>")

variable {m now}

theorem write_eq (w : Write α) : m.write now w =
    m.underneath now w >>= fun answer => .ofExcept (m.decodeAnswer w.key answer) := by
  cases w <;> rfl

theorem decodeAnswer_eq_error_iff {key : String} {answer : Option Bytes}
    {failure : StorageFailure} : m.decodeAnswer key answer = .error failure ↔
      ∃ bytes, answer = some bytes ∧ (Stored.ofBytes? bytes : Option α) = none ∧
        failure = m.illegible key := by
  cases answer with
  | none => simp [decodeAnswer]
  | some bytes =>
    simp only [decodeAnswer, decode, illegible, Option.some.injEq, exists_eq_left']
    cases (Stored.ofBytes? bytes : Option α) <;> simp [eq_comm]

/-- A write that fails was refused underneath, or its answer was not legible. -/
theorem write_error {w : Write α} {s s' : σ} {failure : StorageFailure}
    (h : m.write now w s = (.error failure, s')) :
    m.underneath now w s = (.error failure, s') ∨
      ∃ answer, m.underneath now w s = (.ok answer, s') ∧
        m.decodeAnswer w.key answer = .error failure := by
  rw [write_eq, Action.bind_apply] at h
  split at h
  · next answer t hok =>
    obtain ⟨hanswer, rfl⟩ := Prod.mk.inj h
    exact .inr ⟨answer, hok, hanswer⟩
  · next e t herror =>
    cases h
    exact .inl herror

/-- Reading an answer changes nothing. -/
theorem write_snd (w : Write α) (s : σ) : (m.write now w s).2 = (m.underneath now w s).2 := by
  rw [write_eq, Action.bind_apply]
  rcases m.underneath now w s with ⟨_ | _, _⟩ <;> rfl

variable {contents : σ → ExpiringMap Bytes}

/-- What the backend carries out is the write, and its answer is what was live. -/
theorem underneath_ok (hw : m.backend.WritesExactly contents) (hk : m.backend.Keeps contents)
    {w : Write α} {s s' : σ} {answer : Option Bytes}
    (h : m.underneath now w s = (.ok answer, s')) :
    answer = ((contents s).live? now w.key).map Prod.fst ∧
      contents s' = (contents s).set w.key w.stored? := by
  cases w with
  | put key a expiry =>
    exact ⟨(hk.answered (r := .put key (Stored.bytes a) expiry) h).1,
      hw.done (r := .put key (Stored.bytes a) expiry) rfl h⟩
  | remove key =>
    exact ⟨(hk.answered (r := .remove key) h).1, hw.done (r := .remove key) rfl h⟩

theorem underneath_error (hw : m.backend.WritesExactly contents) {w : Write α} {s s' : σ}
    {failure : StorageFailure} (h : m.underneath now w s = (.error failure, s')) :
    contents s' = contents s := by
  cases w with
  | put key a expiry => exact hw.undone (r := .put key (Stored.bytes a) expiry) rfl h
  | remove key => exact hw.undone (r := .remove key) rfl h

/-- **A failed typed write was refused or carried out.**  If the backend refused it, no entry has
changed.  Otherwise the live bytes that it replaced are no stored form, and it has been carried out
all the same; then nothing has changed only if the key had the very entry that was written. -/
theorem failed_write_iff (hw : m.backend.WritesExactly contents) (hk : m.backend.Keeps contents)
    {w : Write α} {s s' : σ} {failure : StorageFailure}
    (h : m.write now w s = (.error failure, s')) :
    (m.underneath now w s = (.error failure, s') ∧ contents s' = contents s ∨
      ∃ bytes expiry, (contents s).live? now w.key = some (bytes, expiry) ∧
        (Stored.ofBytes? bytes : Option α) = none ∧ failure = m.illegible w.key ∧
        contents s' = (contents s).set w.key w.stored?) ∧
    (contents s' = contents s ↔
      m.underneath now w s = (.error failure, s') ∨ contents s w.key = w.stored?) := by
  rcases write_error h with hrefused | ⟨answer, hok, herror⟩
  · have hsame := underneath_error hw hrefused
    exact ⟨.inl ⟨hrefused, hsame⟩, fun _ => .inl hrefused, fun _ => hsame⟩
  · obtain ⟨hanswer, hdone⟩ := underneath_ok hw hk hok
    obtain ⟨bytes, hbytes, hillegible, hfailure⟩ := decodeAnswer_eq_error_iff.1 herror
    obtain ⟨⟨live, expiry⟩, hlive, rfl⟩ := Option.map_eq_some_iff.1 (hanswer.symm.trans hbytes)
    refine ⟨.inr ⟨live, expiry, hlive, hillegible, hfailure, hdone⟩, ?_⟩
    have hnot : ¬m.underneath now w s = (.error failure, s') := by simp [hok]
    rw [hdone, or_iff_right hnot, ExpiringMap.set, Function.update_eq_self_iff]
    exact eq_comm

/-- The values of a map in memory. -/
def notes : TypedMap MemoryMap Value := ⟨MemoryMap.backend "in-memory:notes"⟩

theorem nan_illegible :
    (Stored.ofBytes? (Stored.bytes (Value.float .nan)) : Option Value) = none :=
  (Stored.ofBytes?_bytes (Stored.wellWritten_valueJson (.float .nan))).trans rfl

/-- The bytes that are stored for a NaN cannot be read: the next put under the key fails, and its
value is there. -/
theorem failed_write_iff_nan :
    ∃ s s' failure, notes.write 0 (.put "k" (.float .nan) 0) .empty = (.ok none, s) ∧
      notes.write 0 (.put "k" (.integer 1) 0) s = (.error failure, s') ∧
      MemoryMap.contents s' ≠ MemoryMap.contents s ∧
      MemoryMap.contents s' "k" = some (Stored.bytes (Value.integer 1), 0) := by
  have hunderneath : notes.underneath 0 (.put "k" (.integer 1) 0)
      (.ofList [("k", ⟨Stored.bytes (Value.float .nan), 0⟩)]) =
      (.ok (some (Stored.bytes (Value.float .nan))),
        .ofList [("k", ⟨Stored.bytes (Value.integer 1), 0⟩)]) := rfl
  have hfails : notes.write 0 (.put "k" (.integer 1) 0)
      (.ofList [("k", ⟨Stored.bytes (Value.float .nan), 0⟩)]) =
      (.error (notes.illegible "k"), .ofList [("k", ⟨Stored.bytes (Value.integer 1), 0⟩)]) := by
    rw [write_eq, Action.bind_ok hunderneath]
    exact congrArg (·, _) (decodeAnswer_eq_error_iff.2 ⟨_, rfl, nan_illegible, rfl⟩)
  obtain ⟨-, hiff⟩ := failed_write_iff (MemoryMap.writesExactly _) (MemoryMap.keeps _) hfails
  refine ⟨_, _, _, rfl, hfails, fun hsame => ?_, rfl⟩
  rcases hiff.1 hsame with hrefused | hentry
  · cases hunderneath.symm.trans hrefused
  · have hbytes : Stored.bytes (Value.float .nan) = Stored.bytes (Value.integer 1) :=
      congrArg Prod.fst (Option.some.inj hentry)
    exact absurd hbytes (by decide +kernel)

/-! ### Sequences of writes -/

/-- Make writes one after another, each at its time, whatever comes of them. -/
def writeAll (m : TypedMap σ α) : List (Int64 × Write α) → σ → σ
  | [], s => s
  | (now, w) :: rest, s => m.writeAll rest (m.write now w s).2

omit [Stored α] in
/-- The entries after writes that were all carried out. -/
def written : ExpiringMap α → List (Int64 × Write α) → ExpiringMap α
  | r, [] => r
  | r, (_, w) :: rest => written (r.set w.key w.new?) rest

/-- Entries with their data in stored form. -/
def stored (r : ExpiringMap α) : ExpiringMap Bytes := fun key =>
  (r key).map fun e => (Stored.bytes e.1, e.2)

theorem stored_set (r : ExpiringMap α) (w : Write α) :
    stored (r.set w.key w.new?) = (stored r).set w.key w.stored? := by
  funext k
  unfold stored ExpiringMap.set Function.update
  by_cases h : k = w.key
  · subst h
    simp [Write.stored?]
  · simp [h]

theorem live?_stored (r : ExpiringMap α) (now : Int64) (key : String) :
    (stored r).live? now key = (r.live? now key).map fun e => (Stored.bytes e.1, e.2) := by
  unfold ExpiringMap.live? stored
  rw [Option.filter_map]
  rfl

variable {sound : σ → Prop}

/-- A backend that never fails carries out every write. -/
theorem underneath_succeeds (hs : m.backend.Succeeds sound) {s : σ} (h : sound s) (now : Int64)
    (w : Write α) : ∃ answer s', m.underneath now w s = (.ok answer, s') ∧ sound s' := by
  cases w with
  | put key a expiry => exact hs (.put key (Stored.bytes a) expiry) now s h
  | remove key => exact hs (.remove key) now s h

/-- **What is held after typed writes is told by the writes**, and those that could not read what
they replaced count like the others. -/
theorem writeAll_contents (hw : m.backend.WritesExactly contents) (hk : m.backend.Keeps contents)
    (hs : m.backend.Succeeds sound) (writes : List (Int64 × Write α)) {s : σ} (hsound : sound s)
    {r : ExpiringMap α} (h : contents s = stored r) :
    sound (m.writeAll writes s) ∧ contents (m.writeAll writes s) = stored (written r writes) := by
  induction writes generalizing s r with
  | nil => exact ⟨hsound, h⟩
  | cons q rest ih =>
    obtain ⟨now, w⟩ := q
    obtain ⟨answer, s', hok, hsound'⟩ := underneath_succeeds hs hsound now w
    have hs' : (m.write now w s).2 = s' := by rw [write_snd, hok]
    rw [writeAll, written, hs']
    refine ih hsound' ?_
    rw [(underneath_ok hw hk hok).2, h, stored_set]

end TypedMap
end LayeredStore
