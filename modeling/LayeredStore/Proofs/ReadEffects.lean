import LayeredStore.Proofs.Acknowledgement
import LayeredStore.Proofs.LayerCalls

/-! # What a read leaves behind

A read of a stack copies its hit into the layers above.  A layer can have been passed over for
two reasons: it had nothing, and then the copy takes no entry away; or it failed, and then it may
hold an entry all the same, which the copy replaces if the layer answers again by the time it is
stored into.  `Vault.read_keeps_live` says that this is all: no other key, no layer from the hit
on, and no layer that answered loses or changes an entry, whatever fails.

`Vault.read_replaces_live` is a read of the second kind.  A write that reached the upper layer only
was reported as failed on the lower one; the upper layer then fails one get, and the older entry
of the lower layer takes the place of the newer one.
-/
namespace LayeredStore

open ExpiringMap

variable {σ V ι : Type} {now : Int64} {id : String}

/-! ### Layers above a hit -/

section

variable {outcomes : List (Except StoreError (Option (V × Int64)))} {place j : Nat} {value : V}
  {expiry : Int64}

/-- A layer above the first hit had nothing, or it failed. -/
theorem FirstHit.passed (h : FirstHit outcomes place value expiry) (hj : j < place) :
    outcomes[j]? = some (.ok none) ∨ ∃ e, outcomes[j]? = some (.error e) := by
  have hplace : place < outcomes.length := (List.getElem?_eq_some_iff.1 h.hit).1
  have hmem : outcomes[j] ∈ outcomes.take place := List.mem_take_iff_getElem.2 ⟨j, by omega, rfl⟩
  rw [List.getElem?_eq_getElem (Nat.lt_trans hj hplace)]
  rcases houtcome : outcomes[j] with e | _ | found
  · exact .inr ⟨e, rfl⟩
  · exact .inl rfl
  · exact absurd (houtcome ▸ hmem) (h.first found)

end

/-- The layer in place `j` is above the first hit of a read, which is the given entry. -/
def Stack.AboveHit (stack : Stack σ V) (now : Int64) (id : String) (s : σ) (j : Nat)
    (copy : V × Int64) : Prop :=
  ∃ k, j < k ∧ FirstHit (stack.fetched now id s) k copy.1 copy.2

/-- What a read of an identifier makes of a key in one of the maps `is` of its layers: the live
entry before and the live entry afterwards. -/
inductive ReadEffect (stack : Stack σ V) (is : List ι) (now : Int64) (id : String) (s : σ) (i : ι)
    (key : String) : Option (V × Int64) → Option (V × Int64) → Prop
  /-- There is what there was. -/
  | kept {e? : Option (V × Int64)} : ReadEffect stack is now id s i key e? e?
  /-- There was nothing, and the map of a layer above the hit has a copy of it. -/
  | added {copy : V × Int64} {j : Nat} : key = id → is[j]? = some i →
      stack.AboveHit now id s j copy → ReadEffect stack is now id s i key none (some copy)
  /-- There was an entry, but the layer failed when it was asked, and it is above the hit. -/
  | replaced {e copy : V × Int64} {j : Nat} {failure : StoreError} : key = id → is[j]? = some i →
      stack.AboveHit now id s j copy → (stack.fetched now id s)[j]? = some (.error failure) →
      ReadEffect stack is now id s i key (some e) (some copy)

/-! ### Reading from tiers -/

namespace Tiers

variable [PolicyKeeper σ] [DecidableEq ι] (T : Tiers σ V ι) {is : List ι} {s : σ}
  {m : ι → ExpiringMap V} {stack : Stack σ V}

/-- Each tier answers with what it holds, or fails. -/
theorem fetched_holds (is : List ι) (h : T.Holds now s m) {j : Nat} {i : ι}
    {found? : Option (V × Int64)} (hi : is[j]? = some i)
    (hfetched : (attemptEach (fun l => l.fetch now id) (is.map T.layer) s).1[j]? =
      some (.ok found?)) : found? = (m i).live? now id := by
  induction is generalizing s j with
  | nil => cases hi
  | cons first rest ih =>
    have hfetch := T.fetch first id h
    have hafter : T.Holds now ((T.layer first).fetch now id s).2 m :=
      hfetch.either.elim (fun h => h) fun h => h
    rw [List.map_cons, attemptEach] at hfetched
    cases j with
    | zero =>
      obtain rfl := Option.some.inj hi
      have houtcome : ((T.layer first).fetch now id s).1 = .ok found? := Option.some.inj hfetched
      rw [← Prod.eta ((T.layer first).fetch now id s), houtcome] at hfetch
      exact hfetch.1
    | succ j => exact ih hafter hi hfetched

/-- A read leaves all maps as they are, or copies its hit, which is live, into some of the layers
above. -/
theorem read_touches (layers : stack.layers = is.map T.layer) (id : String)
    (h : T.Holds now s m) :
    ∃ m', T.Holds now (stack.read now id s).2 m' ∧
      (m' = m ∨ ∃ k value expiry, FirstHit (stack.fetched now id s) k value expiry ∧
        isExpired expiry now = false ∧
        Touched (·.set id (some (value, expiry))) (is.take k) m m') := by
  obtain ⟨searched, t, asked, hsearch, -, hsearched⟩ :=
    searchFrom_noted now id stack.layers 0 s []
  obtain ⟨hholds, hhit, -⟩ := T.searchFrom_holds id is 0 h
  rw [← layers, hsearch] at hholds hhit
  rw [Stack.read, hsearch]
  cases hsearched with
  | @hit failures k value expiry hfirst =>
    obtain ⟨i, -, hlive⟩ := hhit _ rfl
    obtain ⟨m', hm', htouched⟩ := T.populate_holds (T.fits hholds hlive) expiry (is.take k) hholds
    refine ⟨m', ?_, .inr ⟨k, value, expiry, hfirst, not_isExpired_of_live? hlive, htouched⟩⟩
    show T.Holds now (populate now id value expiry (stack.layers.take (0 + k)) t) m'
    rwa [layers, Nat.zero_add, ← List.map_take]
  | miss =>
    refine ⟨m, ?_, .inl rfl⟩
    cases failuresFrom Layer.label 0 stack.layers _ <;> exact hholds

/-- **A read takes an entry only from a layer that failed.** -/
theorem read_effect (layers : stack.layers = is.map T.layer) (id key : String)
    (h : T.Holds now s m) :
    ∃ m', T.Holds now (stack.read now id s).2 m' ∧
      ∀ i, ReadEffect stack is now id s i key ((m i).live? now key) ((m' i).live? now key) := by
  obtain ⟨m', hm', rfl | ⟨k, value, expiry, hfirst, hlive, htouched⟩⟩ := T.read_touches layers id h
  · exact ⟨m', hm', fun i => .kept⟩
  refine ⟨m', hm', fun i => ?_⟩
  rcases htouched i with hsame | ⟨hi, hcopied⟩
  · rw [hsame]
    exact .kept
  rw [hcopied]
  by_cases hkey : key = id
  case neg =>
    rw [live?_set_of_ne _ _ hkey]
    exact .kept
  subst hkey
  rw [live?_set_self, Option.filter_some_pos (by simpa using hlive)]
  obtain ⟨j, hj, rfl⟩ := List.mem_take_iff_getElem.1 hi
  have hplace : is[j]? = some is[j] := List.getElem?_eq_getElem _
  have habove : stack.AboveHit now key s j (value, expiry) := ⟨k, by omega, hfirst⟩
  -- The layer was passed over, and only one that failed can have had an entry.
  rcases hfirst.passed (j := j) (by omega) with hnone | ⟨failure, hfailed⟩
  · rw [Stack.fetched, layers] at hnone
    rw [← T.fetched_holds is h hplace hnone]
    exact .added rfl hplace habove
  · rcases (m is[j]).live? now key with _ | e
    · exact .added rfl hplace habove
    · exact .replaced rfl hplace habove hfailed

end Tiers

/-! ### Reading from backends -/

/-- **A read never overwrites what a layer has, unless that layer failed.**  Of no key does a read
change the live entry that some backend holds, value or expiry, but for one case: the backend is
a layer above the hit, and it failed when it was asked for the identifier; then it may hold a copy
of the hit afterwards.  Otherwise a read only adds copies of its hit where there was nothing. -/
theorem Vault.read_keeps_live [PolicyKeeper σ] [DecidableEq ι] {v : Vault σ ι}
    {stack : Stack σ Bytes} {is : List ι}
    (layers : stack.layers = is.map fun i => Layer.ofBackend (v.backend i)) (now : Int64)
    (id : String) (s : σ) (i : ι) (key : String) :
    ReadEffect stack is now id s i key ((v.contents i s).live? now key)
      ((v.contents i (stack.read now id s).2).live? now key) := by
  obtain ⟨m', hm', heffect⟩ :=
    v.tiers.read_effect (s := s) (m := fun i => v.contents i s) layers id key
      fun i => .refl now _
  rw [hm' i key]
  exact heffect i

/-- The maps of the two volumes. -/
def twoMaps : Vault Site Site.MapId := Site.vault (fun _ => .memory) fun _ => true

/-- A write that reached both volumes, and a second one that the lower volume refused; by now the
lower volume works, and reads of the upper one fail. -/
def splitVolumes : Site :=
  let written := (twoLayers.write 1 "a" [7] twoVolumes).2
  let split := (twoLayers.write 2 "a" [8] (Site.setFault 1 ⟨[.put], .unavailable, none⟩ written)).2
  Site.setFault 0 ⟨[.get], .io, none⟩ (Site.setFault 1 ⟨[], .unavailable, none⟩ split)

theorem Vault.read_keeps_live_split :
    (twoLayers.layers = [(0, "k"), (1, "k")].map fun i => Layer.ofBackend (twoMaps.backend i)) ∧
      ReadEffect twoLayers [(0, "k"), (1, "k")] 3 "a" splitVolumes (0, "k") "a"
        (some ([8], 7)) (some ([7], 6)) :=
  have layers : twoLayers.layers =
      [(0, "k"), (1, "k")].map fun i => Layer.ofBackend (twoMaps.backend i) := rfl
  ⟨layers, Vault.read_keeps_live layers 3 "a" splitVolumes (0, "k") "a"⟩

/-- The older value of the lower volume takes the place of the newer one of the upper volume. -/
theorem Vault.read_replaces_live :
    ¬∀ key e, (twoMaps.contents (0, "k") splitVolumes).live? 3 key = some e →
      (twoMaps.contents (0, "k") (twoLayers.read 3 "a" splitVolumes).2).live? 3 key = some e := by
  intro h
  have hbefore : (twoMaps.contents (0, "k") splitVolumes).live? 3 "a" = some ([8], 7) := by
    decide +kernel
  have hafter : (twoMaps.contents (0, "k") (twoLayers.read 3 "a" splitVolumes).2).live? 3 "a" =
      some ([7], 6) := by
    decide +kernel
  have hkept := h "a" ([8], 7) hbefore
  rw [hafter] at hkept
  cases hkept

end LayeredStore
