import LayeredStore.Proofs.StoredAlike
import LayeredStore.Proofs.TypedWrites

/-! # Keys with a value

A typed map looks for the keys with a value by comparing stored bytes.  After any typed writes the
keys found are those whose last value is alike the one looked for (`TypedMap.keys_select`): where a
float of the value is an infinity or a NaN, keys with any other of these are found as well, and
else exactly the keys that have the value.
-/
namespace LayeredStore

open ExpiringMap

namespace TypedMap

variable {σ : Type} {contents : σ → ExpiringMap Bytes} {sound : σ → Prop} {m : TypedMap σ Value}

/-- **A filter selects the live keys whose last value is alike**, after any typed writes on an empty
map, whichever of them failed to read what they replaced.  These are the keys whose last value is
the same exactly if no live key has a value that is only alike, and so for every filter in which all
floats are finite. -/
theorem keys_select (hw : m.backend.WritesExactly contents) (hk : m.backend.Keeps contents)
    (hs : m.backend.Succeeds sound) {s : σ} (hsound : sound s) (hempty : contents s = .empty)
    (writes : List (Int64 × Write Value)) (now : Int64) (v : Value) :
    ∃ keys s', m.keys now (some v) (m.writeAll writes s) = (.ok keys, s') ∧
      (∀ key, Dictionary.contains keys key = true ↔
        ∃ w expiry, (written .empty writes).live? now key = some (w, expiry) ∧ v.Alike w) ∧
      ((∀ key, Dictionary.contains keys key = true ↔
          ∃ w expiry, (written .empty writes).live? now key = some (w, expiry) ∧ v.Same w) ↔
        ∀ key w expiry, (written .empty writes).live? now key = some (w, expiry) →
          v.Alike w → v.Same w) ∧
      ((∀ x ∈ v.floats, x.isFinite = true) → ∀ key, Dictionary.contains keys key = true ↔
        ∃ w expiry, (written .empty writes).live? now key = some (w, expiry) ∧ v.Same w) := by
  obtain ⟨hsound', hcontents⟩ := writeAll_contents hw hk hs writes hsound (r := .empty) hempty
  obtain ⟨keys, s', hok, -⟩ := hs (.keys (some (Stored.bytes v))) now _ hsound'
  have hanswer := (hk.answered hok).1
  have halike : ∀ key, Dictionary.contains keys key = true ↔
      ∃ w expiry, (written .empty writes).live? now key = some (w, expiry) ∧ v.Alike w := by
    intro key
    rw [hanswer key, hcontents, live?_stored]
    constructor
    · rintro ⟨e, he, hwanted⟩
      obtain ⟨⟨w, expiry⟩, hlive, rfl⟩ := Option.map_eq_some_iff.1 he
      exact ⟨w, expiry, hlive, Stored.bytes_eq_iff_alike.1 (hwanted _ rfl).symm⟩
    · rintro ⟨w, expiry, hlive, halike⟩
      refine ⟨(Stored.bytes w, expiry), by rw [hlive]; rfl, fun wanted hwanted => ?_⟩
      rw [← Option.some.inj hwanted]
      exact (Stored.bytes_eq_iff_alike.2 halike).symm
  refine ⟨keys, s', hok, halike, ⟨fun hsame key w expiry hlive hw => ?_, fun honly key => ?_⟩,
    fun hfinite key => ?_⟩
  · obtain ⟨w', expiry', hlive', hw'⟩ := (hsame key).1 ((halike key).2 ⟨w, expiry, hlive, hw⟩)
    rw [hlive] at hlive'
    cases hlive'
    exact hw'
  · rw [halike key]
    exact exists_congr fun w => exists_congr fun expiry => and_congr_right fun hlive =>
      ⟨honly key w expiry hlive, Value.Same.alike⟩
  · rw [halike key]
    simp only [Value.alike_iff_same hfinite]

/-- A key with one infinity is found by a filter for the other. -/
theorem keys_select_infinity :
    ∃ keys s', notes.keys 0 (some (.float (.infinity true)))
        (notes.writeAll [(0, .put "k" (.float (.infinity false)) 0)] .empty) = (.ok keys, s') ∧
      Dictionary.contains keys "k" = true ∧
      ¬(Value.float (.infinity true)).Same (.float (.infinity false)) := by
  obtain ⟨keys, s', hok, halike, -⟩ := keys_select (m := notes) (MemoryMap.writesExactly _)
    (MemoryMap.keeps _) (MemoryMap.succeeds _) (s := .empty) trivial rfl
    [(0, .put "k" (.float (.infinity false)) 0)] 0 (.float (.infinity true))
  exact ⟨keys, s', hok, (halike "k").2 ⟨_, _, rfl, by decide⟩, by decide⟩

end TypedMap
end LayeredStore
