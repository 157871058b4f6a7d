import LayeredStore.Proofs.DiskEntries
import LayeredStore.Proofs.ExpiringMap

/-! # What a backend promises

`Backend.Keeps` is the promise that everything above a backend relies on: a request that is
answered is answered as the expiring map in the state would, and a request that fails has
no effect.  It says nothing about which requests fail, so an unreliable backend keeps a map
as well as a reliable one; `Backend.Succeeds` is the separate promise that none fails.

Maps in memory and maps on disk both keep an expiring map (`MemoryMap.keeps`,
`DiskMap.keeps`).  They hold different data: a read in memory drops an expired entry that a
disk map only hides, and a disk map may hold raw bytes that are no entry.  Neither can be
seen in an answer.
-/
namespace LayeredStore

open ExpiringMap

namespace Backend

variable {σ : Type}

/-- The backend keeps the expiring map that is read off a state: what it answers is right
and done, what it refuses is left undone. -/
structure Keeps (b : Backend σ) (contents : σ → ExpiringMap Bytes) : Prop where
  answered : ∀ {r : Request} {now : Int64} {s s' : σ} {a : r.Answer},
    b.perform r now s = (.ok a, s') →
      (contents s).Answers now r a ∧ AgreeFrom now (contents s') ((contents s).after now r)
  refused : ∀ {r : Request} {now : Int64} {s s' : σ} {failure : StorageFailure},
    b.perform r now s = (.error failure, s') → AgreeFrom now (contents s') (contents s)

/-- Every request on a sound state is answered and leaves a sound state. -/
def Succeeds (b : Backend σ) (sound : σ → Prop) : Prop :=
  ∀ (r : Request) (now : Int64) (s : σ), sound s →
    ∃ a s', b.perform r now s = (.ok a, s') ∧ sound s'

end Backend

/-- An entry as an expiring map holds it. -/
def Entry.pair (e : Entry) : Bytes × Int64 := (e.value, e.expiry)

/-! ## Maps in memory -/

namespace MemoryMap

/-- The entries of a map in memory. -/
def contents (m : MemoryMap) : ExpiringMap Bytes := fun key => (m.get? key).map Entry.pair

@[simp] theorem contents_empty : contents .empty = ExpiringMap.empty := rfl

theorem contents_insert (m : MemoryMap) (key : String) (e : Entry) :
    contents (m.insert key e) = (contents m).set key (some e.pair) :=
  read_insert (fun _ e? => e?.map Entry.pair) m key e

theorem contents_erase (m : MemoryMap) (key : String) :
    contents (m.erase key) = (contents m).set key none :=
  read_erase (fun _ e? => e?.map Entry.pair) m key

theorem live?_contents (m : MemoryMap) (now : Int64) (key : String) :
    (contents m).live? now key = (m.live? now key).map Entry.pair := by
  unfold contents ExpiringMap.live? live?
  rw [Option.filter_map]
  rfl

/-- A sweep cannot be noticed. -/
theorem agreeFrom_reclaimed (m : MemoryMap) (now : Int64) :
    AgreeFrom now (contents (m.reclaimed now)) (contents m) := by
  intro key
  rw [live?_contents, live?_contents]
  unfold live? reclaimed
  rw [Dictionary.get?_filter, Option.filter_filter]
  simp only [Bool.and_self]

theorem answers_liveKeys (m : MemoryMap) (now : Int64) (wanted? : Option Bytes) :
    (contents m).Answers now (.keys wanted?) (m.liveKeys now wanted?) := by
  intro key
  rw [live?_contents]
  simp only [liveKeys, Dictionary.contains, Dictionary.get?_map, Dictionary.get?_filter, reclaimed,
    live?, Option.isSome_map, Option.isSome_iff_exists, Option.filter_eq_some_iff,
    Option.map_eq_some_iff]
  constructor
  · rintro ⟨e, he, hw⟩
    refine ⟨e.pair, ⟨e, he, rfl⟩, ?_⟩
    rintro wanted hm
    rw [Option.mem_def.1 hm] at hw
    exact (eq_of_beq hw).symm
  · rintro ⟨-, ⟨e, he, rfl⟩, hw⟩
    refine ⟨e, he, ?_⟩
    cases wanted? with
    | none => rfl
    | some wanted => exact beq_iff_eq.2 (hw wanted rfl).symm

/-- **A map in memory keeps an expiring map.** -/
theorem keeps (name : String) : (backend name).Keeps contents where
  answered := by
    intro r now m m' a h
    obtain ⟨rfl, rfl⟩ : (perform m now r).1 = a ∧ (perform m now r).2 = m' := by
      simpa [backend] using h
    cases r with
    | get key =>
      simp only [perform, Answers, after]
      have hlive := live?_contents m now key
      cases he : m.live? now key with
      | some e => rw [hlive, he]; exact ⟨rfl, .refl now _⟩
      | none =>
        rw [he] at hlive
        rw [hlive, contents_erase]
        exact ⟨rfl, agreeFrom_set_none hlive⟩
    | put key value expiry =>
      refine ⟨?_, .of_eq (contents_insert m key _)⟩
      simp only [perform, Answers, live?_contents, Option.map_map]
      rfl
    | remove key =>
      refine ⟨?_, .of_eq (contents_erase m key)⟩
      simp only [perform, Answers, live?_contents, Option.map_map]
      rfl
    | keys wanted? => exact ⟨answers_liveKeys m now wanted?, .refl now _⟩
    | expiry key =>
      refine ⟨?_, .refl now _⟩
      simp only [perform, Answers, live?_contents, Option.map_map]
      rfl
    | setExpiry key expiry =>
      simp only [perform, Answers, after, live?_contents]
      cases m.live? now key with
      | some e => exact ⟨rfl, .of_eq (contents_insert m key _)⟩
      | none => exact ⟨rfl, .refl now _⟩
    | upkeep verb =>
      cases verb with
      | setup | incremental => exact ⟨trivial, .refl now _⟩
      | teardown | clear => exact ⟨trivial, .refl now _⟩
      | maintenance => exact ⟨trivial, agreeFrom_reclaimed m now⟩
  refused := by
    intro _ _ _ _ _ h
    simp [backend] at h

/-- No request on a map in memory fails. -/
theorem succeeds (name : String) : (backend name).Succeeds fun _ => True :=
  fun _ _ _ _ => ⟨_, _, rfl, trivial⟩

end MemoryMap

/-! ## Maps on disk -/

namespace DiskMap

/-- The entry of raw bytes, if they are one. -/
def decoded? (raw : Bytes) : Option Entry := (decode raw).toOption

/-- The entries of a map on disk; damaged raw bytes are none. -/
def contents (m : DiskMap) : ExpiringMap Bytes := fun key =>
  ((m.get? key).bind decoded?).map Entry.pair

/-- No raw bytes of the map are damaged. -/
def Intact (m : DiskMap) : Prop := ∀ key raw, m.get? key = some raw → headerLength ≤ raw.length

@[simp] theorem contents_empty : contents .empty = ExpiringMap.empty := rfl

theorem decoded?_eq_some {raw : Bytes} {e : Entry} : decoded? raw = some e ↔ decode raw = .ok e := by
  unfold decoded?
  cases decode raw <;> simp [Except.toOption]

@[simp] theorem decoded?_encode (e : Entry) : decoded? (encode e) = some e :=
  decoded?_eq_some.2 (decode_encode e)

theorem contents_insert (m : DiskMap) (key : String) (e : Entry) :
    contents (m.insert key (encode e)) = (contents m).set key (some e.pair) := by
  have hread := read_insert (fun _ raw? => (raw?.bind decoded?).map Entry.pair) m key (encode e)
  rw [Option.bind_some, decoded?_encode] at hread
  exact hread

theorem contents_erase (m : DiskMap) (key : String) :
    contents (m.erase key) = (contents m).set key none :=
  read_erase (fun _ raw? => (raw?.bind decoded?).map Entry.pair) m key

/-- A key whose raw bytes can be read has the live entry that was read. -/
theorem live?_contents {m : DiskMap} {now : Int64} {key : String} {e? : Option Entry}
    (h : m.live? now key = .ok e?) : (contents m).live? now key = e?.map Entry.pair := by
  unfold live? decodeLive at h
  show (((m.get? key).bind decoded?).map Entry.pair).filter _ = _
  split at h
  · next raw hraw =>
    rw [hraw]
    split at h
    · next e he =>
      cases h
      rw [Option.bind_some, decoded?_eq_some.2 he]
      by_cases hl : isExpired e.expiry now = true <;>
        simp [Entry.isLive, Entry.pair, hl]
    · cases h
  · next hraw =>
    cases h
    rw [hraw]
    rfl

/-- What was decoded is exactly what is there. -/
theorem mem_decodeAll {pairs : List (String × Bytes)} {entries : List (String × Entry)}
    (h : decodeAll pairs = .ok entries) (key : String) (e : Entry) :
    (key, e) ∈ entries ↔ ∃ raw, (key, raw) ∈ pairs ∧ decode raw = .ok e := by
  induction pairs generalizing entries with
  | nil => cases h; simp
  | cons p pairs ih =>
    obtain ⟨k, raw⟩ := p
    rw [decodeAll] at h
    split at h
    · cases h
    · next first hfirst =>
      split at h
      · cases h
      · next rest hrest =>
        cases h
        simp only [List.mem_cons, Prod.mk.injEq, ih hrest]
        constructor
        · rintro (⟨rfl, rfl⟩ | ⟨raw', hmem, hdec⟩)
          · exact ⟨raw, .inl ⟨rfl, rfl⟩, hfirst⟩
          · exact ⟨raw', .inr hmem, hdec⟩
        · rintro ⟨raw', ⟨rfl, rfl⟩ | hmem, hdec⟩
          · rw [hfirst] at hdec
            exact .inl ⟨rfl, (Except.ok.inj hdec).symm⟩
          · exact .inr ⟨raw', hmem, hdec⟩

/-- Where all entries were decoded, they are the contents. -/
theorem mem_decodeAll_toList {m : DiskMap} {entries : List (String × Entry)}
    (h : decodeAll m.toList = .ok entries) (key : String) (e : Entry) :
    (key, e) ∈ entries ↔ (m.get? key).bind decoded? = some e := by
  rw [mem_decodeAll h, Option.bind_eq_some_iff]
  refine exists_congr fun raw => ?_
  rw [Dictionary.get?_eq_some_iff, decoded?_eq_some]
  rfl

theorem answers_keys {m : DiskMap} {now : Int64} {wanted? : Option Bytes}
    {entries : List (String × Entry)} (h : decodeAll m.toList = .ok entries) :
    (contents m).Answers now (.keys wanted?) (KeySet.ofKeys ((entries.filter fun (_, e) =>
      e.isLive now && wanted?.all (· == e.value)).map Prod.fst)) := by
  intro key
  rw [KeySet.contains_ofKeys, List.mem_map]
  constructor
  · rintro ⟨⟨k, e⟩, hmem, rfl⟩
    obtain ⟨he, hl⟩ := List.mem_filter.1 hmem
    obtain ⟨hl, hw⟩ := Bool.and_eq_true_iff.1 hl
    have hk : contents m k = some e.pair := by
      rw [contents, (mem_decodeAll_toList h k e).1 he]; rfl
    refine ⟨e.pair, Option.filter_eq_some_iff.2 ⟨hk, hl⟩, ?_⟩
    rintro wanted hm
    rw [Option.mem_def.1 hm] at hw
    exact (eq_of_beq hw).symm
  · rintro ⟨p, hp, hw⟩
    obtain ⟨hk, hl⟩ := Option.filter_eq_some_iff.1 hp
    obtain ⟨e, he, rfl⟩ := Option.map_eq_some_iff.1 hk
    refine ⟨(key, e), List.mem_filter.2 ⟨(mem_decodeAll_toList h key e).2 he, ?_⟩, rfl⟩
    refine Bool.and_eq_true_iff.2 ⟨hl, ?_⟩
    cases wanted? with
    | none => rfl
    | some wanted => exact beq_iff_eq.2 (hw wanted rfl).symm

/-- A sweep cannot be noticed. -/
theorem agreeFrom_swept {m : DiskMap} {now : Int64} {entries : List (String × Entry)}
    (h : decodeAll m.toList = .ok entries) :
    AgreeFrom now (contents ((entries.filter fun (_, e) => !e.isLive now).foldl
      (fun m (key, _) => m.erase key) m)) (contents m) := by
  intro key
  have hfold : ∀ (l : List (String × Entry)) (d : DiskMap),
        l.foldl (fun m (key, _) => m.erase key) d = (l.map Prod.fst).foldl Dictionary.erase d := by
    intro l d
    rw [List.foldl_map]
  rw [hfold]
  show ((Dictionary.get? _ key).bind decoded? |>.map Entry.pair).filter _ =
    (((m.get? key).bind decoded?).map Entry.pair).filter _
  rw [Dictionary.get?_foldl_erase]
  split
  · next hmem =>
    obtain ⟨⟨k, e⟩, he, rfl⟩ := List.mem_map.1 hmem
    obtain ⟨he, hdead⟩ := List.mem_filter.1 he
    have hexpired : isExpired e.expiry now = true := by simpa [Entry.isLive] using hdead
    rw [(mem_decodeAll_toList h k e).1 he]
    refine (Option.filter_eq_none_iff.2 fun p hp => ?_).symm
    obtain rfl : e.pair = p := Option.some.inj hp
    simpa [Entry.pair] using hexpired
  · rfl

/-- A mapped outcome that is a value comes from one. -/
theorem exists_of_map_ok {ε α β : Type} {x : Except ε α} {f : α → β} {b : β}
    (h : x.map f = .ok b) : ∃ a, x = .ok a ∧ f a = b := by
  cases x with
  | error => cases h
  | ok a => exact ⟨a, rfl, Except.ok.inj h⟩

/-- What a transaction commits is right and done. -/
theorem transact_ok {m m' : DiskMap} {now : Int64} {r : Request} {a : r.Answer}
    (h : transact m now r = .ok (a, m')) :
    (contents m).Answers now r a ∧ AgreeFrom now (contents m') ((contents m).after now r) := by
  cases r with
  | get key =>
    obtain ⟨e?, he, hr⟩ := exists_of_map_ok h
    cases hr
    refine ⟨?_, .refl now _⟩
    simp only [Answers, live?_contents he, Option.map_map]
    rfl
  | put key value expiry =>
    obtain ⟨e?, he, hr⟩ := exists_of_map_ok h
    cases hr
    refine ⟨?_, .of_eq (contents_insert m key _)⟩
    simp only [Answers, live?_contents he, Option.map_map]
    rfl
  | remove key =>
    obtain ⟨e?, he, hr⟩ := exists_of_map_ok h
    cases hr
    refine ⟨?_, .of_eq (contents_erase m key)⟩
    simp only [Answers, live?_contents he, Option.map_map]
    rfl
  | keys wanted? =>
    obtain ⟨entries, he, hr⟩ := exists_of_map_ok h
    cases hr
    exact ⟨answers_keys he, .refl now _⟩
  | expiry key =>
    obtain ⟨e?, he, hr⟩ := exists_of_map_ok h
    cases hr
    refine ⟨?_, .refl now _⟩
    simp only [Answers, live?_contents he, Option.map_map]
    rfl
  | setExpiry key expiry =>
    obtain ⟨e?, he, hr⟩ := exists_of_map_ok h
    simp only [Answers, after, live?_contents he]
    cases e? with
    | some e => cases hr; exact ⟨rfl, .of_eq (contents_insert m key _)⟩
    | none => cases hr; exact ⟨rfl, .refl now _⟩
  | upkeep verb =>
    cases verb with
    | setup | incremental | teardown | clear => cases h; exact ⟨trivial, .refl now _⟩
    | maintenance =>
      obtain ⟨entries, he, hr⟩ := exists_of_map_ok h
      cases hr
      exact ⟨trivial, agreeFrom_swept he⟩

/-- **A map on disk keeps an expiring map**, damaged or not. -/
theorem keeps (name : String) : (backend name).Keeps contents where
  answered := by
    intro r now m m' a h
    refine transact_ok (r := r) ?_
    change perform r now m = (.ok a, m') at h
    unfold perform at h
    split at h
    · next answer after' hok => cases h; exact hok
    · cases h
  refused := fun h => .of_eq (congrArg contents (perform_error h))

/-! ### Intact maps -/

namespace Intact

variable {m : DiskMap}

theorem empty : Intact .empty := fun key raw h => by simp at h

theorem insert (h : Intact m) (key : String) (e : Entry) : Intact (m.insert key (encode e)) :=
  fun k raw hk => by
    rw [Dictionary.get?_insert] at hk
    split at hk
    · cases hk
      rw [length_encode]
      omega
    · exact h k raw hk

theorem erase (h : Intact m) (key : String) : Intact (m.erase key) := by
  intro k raw hk
  rw [Dictionary.get?_erase] at hk
  split at hk
  · cases hk
  · exact h k raw hk

theorem foldl_erase (h : Intact m) (entries : List (String × Entry)) :
    Intact (entries.foldl (fun m (key, _) => m.erase key) m) := by
  induction entries generalizing m with
  | nil => exact h
  | cons p rest ih => exact ih (h.erase p.1)

/-- A key of an intact map can be read. -/
theorem live?_ok (h : Intact m) (now : Int64) (key : String) : ∃ e?, m.live? now key = .ok e? := by
  unfold live?
  cases hraw : m.get? key with
  | none => exact ⟨_, rfl⟩
  | some raw =>
    obtain ⟨e, he⟩ := decode_of_le (h key raw hraw)
    refine ⟨if e.isLive now then some e else none, ?_⟩
    simp only [decodeLive, he]

theorem decodeAll_ok {pairs : List (String × Bytes)}
    (h : ∀ p ∈ pairs, headerLength ≤ p.2.length) : ∃ entries, decodeAll pairs = .ok entries := by
  induction pairs with
  | nil => exact ⟨_, rfl⟩
  | cons p rest ih =>
    obtain ⟨e, he⟩ := decode_of_le (h p List.mem_cons_self)
    obtain ⟨entries, hrest⟩ := ih fun q hq => h q (List.mem_cons_of_mem p hq)
    refine ⟨(p.1, e) :: entries, ?_⟩
    simp only [decodeAll, he, hrest]

/-- Every entry of an intact map can be read. -/
theorem entries_ok (h : Intact m) : ∃ entries, decodeAll m.toList = .ok entries :=
  decodeAll_ok fun p hp => h p.1 p.2 ((Dictionary.get?_eq_some_iff m p.1 p.2).2 hp)

/-- A transaction on an intact map is committed, and leaves it intact. -/
theorem transact (h : Intact m) (now : Int64) (r : Request) :
    ∃ a m', transact m now r = .ok (a, m') ∧ Intact m' := by
  cases r with
  | get key | expiry key =>
    obtain ⟨e?, he⟩ := h.live?_ok now key
    exact ⟨_, m, by rw [DiskMap.transact, he]; rfl, h⟩
  | put key value expiry =>
    obtain ⟨e?, he⟩ := h.live?_ok now key
    exact ⟨_, _, by rw [DiskMap.transact, he]; rfl, h.insert key _⟩
  | remove key =>
    obtain ⟨e?, he⟩ := h.live?_ok now key
    exact ⟨_, _, by rw [DiskMap.transact, he]; rfl, h.erase key⟩
  | keys wanted? =>
    obtain ⟨entries, he⟩ := h.entries_ok
    exact ⟨_, m, by rw [DiskMap.transact, he]; rfl, h⟩
  | setExpiry key expiry =>
    obtain ⟨e?, he⟩ := h.live?_ok now key
    cases e? with
    | none => exact ⟨_, m, by rw [DiskMap.transact, he]; rfl, h⟩
    | some e => exact ⟨_, _, by rw [DiskMap.transact, he]; rfl, h.insert key _⟩
  | upkeep verb =>
    cases verb with
    | setup | incremental => exact ⟨_, m, rfl, h⟩
    | teardown | clear => exact ⟨_, _, rfl, .empty⟩
    | maintenance =>
      obtain ⟨entries, he⟩ := h.entries_ok
      exact ⟨_, _, by rw [DiskMap.transact, he]; rfl, h.foldl_erase _⟩

end Intact

/-- No request on an intact map on disk fails. -/
theorem succeeds (name : String) : (backend name).Succeeds Intact := by
  intro r now m h
  obtain ⟨a, m', ha, hm⟩ := h.transact now r
  refine ⟨a, m', ?_, hm⟩
  simp only [backend, perform, ha]

end DiskMap

end LayeredStore
