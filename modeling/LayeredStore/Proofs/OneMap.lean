import LayeredStore.Proofs.RecordMap

/-! # A stack of tables is one map of records

While nothing fails, the tables of a stack mirror a map of records (`Layout.Mirrors`): the
lowest has its live records, and those above it have some of them or none.  Every request
keeps that, and is answered as the map answers it (`Layout.perform_mirrors`), whatever the
upper tables have forgotten in between.
-/
namespace LayeredStore

open ExpiringMap

/-! ### Caches of every key -/

namespace Caches

variable {V ι : Type} [DecidableEq ι] {now : Int64} {is : List ι} {lowest : ι}
  {m : ι → ExpiringMap V} {target : ExpiringMap V} {key : String}

/-- A change made in every tier and in the target, that leaves the key alone or settles it. -/
theorem changedOn (h : Caches now is lowest m target key) (hmem : lowest ∈ is)
    {f : ExpiringMap V → ExpiringMap V}
    (hf : (∀ x, (f x).live? now key = (f target).live? now key) ∨
      ∀ x, (f x).live? now key = x.live? now key) :
    Caches now is lowest (changedOn f is m) (f target) key := by
  rcases hf with hsettled | hsame
  · exact .all hmem hsettled fun i hi => changedOn_of_mem hi m
  · refine ⟨?_, fun i hi => ?_⟩
    · rw [changedOn_of_mem hmem, hsame, hsame, h.source]
    · rw [changedOn_of_mem hi, hsame, hsame]
      exact h.copies i hi

omit [DecidableEq ι] in
/-- Some tier has the key just when the target has it. -/
theorem any_live (h : Caches now is lowest m target key) (hmem : lowest ∈ is) :
    (is.any fun i => ((m i).live? now key).isSome) = (target.live? now key).isSome := by
  rw [Bool.eq_iff_iff, List.any_eq_true]
  constructor
  · rintro ⟨i, hi, hlive⟩
    rcases h.copies i hi with hnone | hcopy
    · rw [hnone] at hlive
      cases hlive
    · rwa [hcopy] at hlive
  · intro hlive
    exact ⟨lowest, hmem, by rwa [h.source]⟩

end Caches

namespace Layout

variable {σ κ ι : Type} [PolicyKeeper σ] [DecidableEq ι] [DecidableEq κ] {L : Layout κ ι}
  {v : Vault σ ι} {sound : σ → Prop} {ks : List κ} {lowest : κ} {now : Int64} {s : σ}
  {map : RecordMap}

/-- The tables of a state are caches of the lowest one, and that has the records of a map. -/
def Mirrors (L : Layout κ ι) (v : Vault σ ι) (sound : σ → Prop) (ks : List κ) (lowest : κ)
    (now : Int64) (s : σ) (map : RecordMap) : Prop :=
  ∃ m, L.Holds v sound now s m ∧ ∀ key, Caches now ks lowest m map.expiring key

omit [DecidableEq ι] [DecidableEq κ] in
theorem Mirrors.later {next : Int64} (h : L.Mirrors v sound ks lowest now s map)
    (hle : now ≤ next) : L.Mirrors v sound ks lowest next s map := by
  obtain ⟨m, hm, hcaches⟩ := h
  exact ⟨m, hm.later hle, fun key => (hcaches key).later hle⟩

section

variable (hv : v.Reliable sound) (hnodup : ks.Nodup) (hmem : lowest ∈ ks)
  {stack : Stack σ Record} (layers : stack.layers = L.layers v.backend ks)
include hv

/-! ### Requests to the lowest table -/

omit [DecidableEq κ] in

/-- The lowest table has the identifiers of the map. -/
theorem keys_mirrors (h : L.Mirrors v sound ks lowest now s map) :
    ∃ t, (L.table v.backend lowest).keys now s = (.ok ((map.live now).map fun _ => ()), t) ∧
      L.Mirrors v sound ks lowest now t map := by
  obtain ⟨m, hm, hcaches⟩ := h
  obtain ⟨keys, t, ht, hholds, hcontains⟩ := keys_ok hv hm lowest
  have hkeys : keys = (map.live now).map fun _ => () := KeySet.ext_contains fun id => by
    rw [hcontains, (hcaches id).source, map.live?_expiring, Option.isSome_map, Dictionary.contains,
      Dictionary.get?_map, Option.isSome_map]
  exact ⟨t, hkeys ▸ ht, m, hholds, hcaches⟩

omit [DecidableEq κ] in
/-- A scan of the lowest table finds the live records of the map that pass. -/
theorem scan_mirrors (h : L.Mirrors v sound ks lowest now s map) (q : Query) :
    ∃ t, (L.table v.backend lowest).scan now q s = (.ok ((map.records now).filter q.accepts), t) ∧
      L.Mirrors v sound ks lowest now t map := by
  obtain ⟨t, ht, m, hm, hcaches⟩ := keys_mirrors hv h
  obtain ⟨u, hu, hholds⟩ := materialize_ok hv hm lowest (map.live now).keys
  have hrecords : ((map.live now).keys.filterMap fun id =>
      ((m lowest).live? now id).map Prod.fst) = map.records now := by
    rw [Dictionary.keys, List.filterMap_map, RecordMap.records, ← List.filterMap_eq_map]
    refine List.filterMap_congr fun e he => ?_
    obtain ⟨id, fields, expiry⟩ := e
    have hget : (map.live now).get? id = some (fields, expiry) :=
      (Dictionary.get?_eq_some_iff _ id _).2 he
    simp only [Function.comp_apply, (hcaches id).source, map.live?_expiring, hget]
    rfl
  have hids : ((map.live now).map fun _ => ()).keys = (map.live now).keys := by
    simp [Dictionary.keys, Dictionary.map]
  refine ⟨u, ?_, m, hholds, hcaches⟩
  unfold Table.scan
  rw [Action.bind_ok ht, hids, Action.bind_ok hu, hrecords]
  rfl

include hmem layers

/-! ### Requests to all tables -/

/-- **A read is answered from the map**, whatever the upper tables have of it. -/
theorem read_mirrors (h : L.Mirrors v sound ks lowest now s map) (id : String) :
    ∃ t, stack.read now id s = (.ok (((map.live now).get? id).map fun e => ⟨id, e.1⟩), t) ∧
      L.Mirrors v sound ks lowest now t map := by
  obtain ⟨m, hm, hcaches⟩ := h
  obtain ⟨value?, t, ht⟩ := (tiers_reliable hv).read_ok layers id hm
  obtain ⟨m', hm', hfound⟩ := (tiers hv L).read_holds layers id hm
  rw [ht] at hm' hfound
  have hvalue := ((hcaches id).found hmem hfound).2 value? rfl
  rw [map.live?_expiring, Option.map_map] at hvalue
  refine ⟨t, by rw [ht, hvalue]; rfl, m', hm', fun key => ?_⟩
  by_cases hkey : key = id
  · subst hkey
    exact ((hcaches key).found hmem hfound).1
  · exact (hcaches key).found_of_ne hkey hfound

include hnodup

/-- **A write into every table is a write into the map.** -/
theorem writeExpiring_mirrors (h : L.Mirrors v sound ks lowest now s map) {id : String} {r : Record}
    (hfits : L.Fits id r) (expiry : Int64) :
    ∃ t, stack.writeExpiring now id r expiry s = (.ok (), t) ∧
      L.Mirrors v sound ks lowest now t (map.insert id (r.fields, expiry)) := by
  obtain ⟨m, hm, hcaches⟩ := h
  obtain ⟨t, ht, hholds⟩ := (tiers_reliable hv).writeExpiring_all layers hnodup hfits expiry hm
  refine ⟨t, ht, _, hholds, fun key => ?_⟩
  have hrecord : (⟨id, r.fields⟩ : Record) = r := by rw [← hfits.id]
  rw [RecordMap.expiring_insert, hrecord]
  refine (hcaches key).changedOn hmem ?_
  by_cases hkey : key = id
  · subst hkey
    exact .inl fun x => by rw [live?_set_self, live?_set_self]
  · exact .inr fun x => live?_set_of_ne x now hkey _

theorem remove_mirrors (h : L.Mirrors v sound ks lowest now s map) (id : String) :
    ∃ t, stack.remove now id s = (.ok ((map.live now).contains id), t) ∧
      L.Mirrors v sound ks lowest now t (map.erase id) := by
  obtain ⟨m, hm, hcaches⟩ := h
  obtain ⟨t, ht, hholds⟩ := (tiers_reliable hv).remove_all layers hnodup id hm
  rw [(hcaches id).any_live hmem, map.live?_expiring, Option.isSome_map] at ht
  refine ⟨t, ht, _, hholds, fun key => ?_⟩
  rw [RecordMap.expiring_erase]
  refine (hcaches key).changedOn hmem ?_
  by_cases hkey : key = id
  · subst hkey
    exact .inl fun x => by rw [live?_set_self, live?_set_self]
  · exact .inr fun x => live?_set_of_ne x now hkey _

theorem upkeep_mirrors (h : L.Mirrors v sound ks lowest now s map) (verb : Upkeep) :
    ∃ t, stack.upkeep now verb s = (.ok (), t) ∧ L.Mirrors v sound ks lowest now t
      (map.perform L.lifespan now (.upkeep verb)).2 := by
  obtain ⟨m, hm, hcaches⟩ := h
  obtain ⟨t, ht, hholds⟩ := (tiers_reliable hv).upkeep_all layers hnodup verb hm
  refine ⟨t, ht, _, hholds, fun key => ?_⟩
  cases verb with
  | setup | maintenance | incremental =>
    exact (hcaches key).changedOn hmem (f := (·.afterUpkeep .setup)) (.inr fun _ => rfl)
  | teardown | clear =>
    exact (hcaches key).changedOn hmem (f := (·.afterUpkeep .clear)) (.inl fun _ => rfl)

/-- An update reads, and writes what is derived from the answer. -/
theorem update_mirrors (h : L.Mirrors v sound ks lowest now s map) {id : String}
    {derive : Option Record → Record}
    (hfits : ∀ current?, (∀ r ∈ current?, L.Fits id r) → L.Fits id (derive current?)) :
    ∃ t, stack.update now id derive s =
        (.ok (derive (((map.live now).get? id).map fun e => ⟨id, e.1⟩)), t) ∧
      L.Mirrors v sound ks lowest now t (map.insert id
        ((derive (((map.live now).get? id).map fun e => ⟨id, e.1⟩)).fields,
          expiryAfter now stack.lifespan)) := by
  obtain ⟨t, ht, hread⟩ := read_mirrors hv hmem layers h id
  have hcurrent : ∀ r ∈ ((map.live now).get? id).map fun e => ⟨id, e.1⟩, L.Fits id r := by
    obtain ⟨m, ⟨raw, -, hmeans⟩, hcaches⟩ := h
    intro r hr
    obtain ⟨e, he, rfl⟩ := Option.map_eq_some_iff.1 hr
    refine hmeans.fits lowest id (⟨id, e.1⟩, e.2) ?_
    rw [(hcaches id).source, map.live?_expiring, he]
    rfl
  obtain ⟨u, hu, hafter⟩ := writeExpiring_mirrors hv hnodup hmem layers hread (hfits _ hcurrent)
    (expiryAfter now stack.lifespan)
  refine ⟨u, ?_, hafter⟩
  unfold Stack.update Stack.write
  rw [Action.bind_ok ht, Action.bind_ok hu]
  rfl

omit layers

/-- An append without an identifier writes a record of its own. -/
theorem appendFresh_mirrors (h : L.Mirrors v sound ks lowest now s map) {fresh : String}
    {fields : List (String × Value)} (hid : fresh ≠ "")
    (htakes : ∀ field ∈ fields, L.schema.Takes field) (ticket : Nat) :
    ∃ t, (L.stack v.backend ks lowest ticket).append now none fresh fields s =
        (.ok (.ofFields fresh fields), t) ∧
      L.Mirrors v sound ks lowest now t
        (map.insert fresh ((Record.ofFields fresh fields).fields, expiryAfter now L.lifespan)) := by
  have layers : (L.stack v.backend ks lowest ticket).stack.layers = L.layers v.backend ks := rfl
  have hfits : L.Fits fresh (.ofFields fresh fields) := fits_ofFields hid htakes
  obtain ⟨-, hchecked⟩ := hfits.checked s
  obtain ⟨t, ht, hafter⟩ := writeExpiring_mirrors hv hnodup hmem layers h hfits
    (expiryAfter now L.lifespan)
  refine ⟨t, (Action.bind_ok hchecked _).trans ?_, hafter⟩
  refine (Action.bind_ok (a := ()) (t := t) ?_ _).trans rfl
  have hpatch : (Record.ofFields ((none : Option String).getD fresh) fields).id = fresh := hfits.id
  rw [hpatch]
  exact ht

/-- An append under an identifier writes the fields over those of the live record, or over
none. -/
theorem appendTo_mirrors (h : L.Mirrors v sound ks lowest now s map) {id : String}
    (fresh : String) {fields : List (String × Value)} (hid : id ≠ "")
    (htakes : ∀ field ∈ fields, L.schema.Takes field) (ticket : Nat) :
    ∃ t, (L.stack v.backend ks lowest ticket).append now (some id) fresh fields s =
        (.ok (.ofFields id fields), t) ∧
      L.Mirrors v sound ks lowest now t
        (map.perform L.lifespan now (.append (some id) fresh fields)).2 := by
  have layers : (L.stack v.backend ks lowest ticket).stack.layers = L.layers v.backend ks := rfl
  have hfits : L.Fits id (.ofFields id fields) := fits_ofFields hid htakes
  have hpatch : (Record.ofFields id fields).id = id := hfits.id
  obtain ⟨hidentified, hchecked⟩ := hfits.checked s
  obtain ⟨t, ht, hafter⟩ := update_mirrors hv hnodup hmem layers h
    (fun current? hcurrent => hfits.patched hcurrent)
  obtain ⟨merged, hupdate⟩ : ∃ merged, (L.stack v.backend ks lowest ticket).stack.update now
      (Record.ofFields id fields).id (fun current? =>
        (current?.getD (.blank (Record.ofFields id fields).id)).merge (.ofFields id fields)) s =
      (.ok merged, t) := by
    rw [hpatch]
    exact ⟨_, ht⟩
  refine ⟨t, (Action.bind_ok hidentified _).trans ((Action.bind_ok hchecked _).trans ?_), ?_⟩
  · exact (Action.bind_ok hupdate _).trans rfl
  · have hfields : (((((map.live now).get? id).map fun e => (⟨id, e.1⟩ : Record)).getD
        (.blank id)).merge (.ofFields id fields)).fields =
        ((((map.live now).get? id).map Prod.fst).getD .empty).insertAll
          (Record.ofFields id fields).fields.toList := by
      cases (map.live now).get? id <;> rfl
    rw [hfields] at hafter
    exact hafter

/-- **Every valid request is answered as the map answers it**, and leaves the tables with what
the map has then. -/
theorem perform_mirrors (h : L.Mirrors v sound ks lowest now s map) {r : RecordRequest}
    (hvalid : r.Valid L.schema) (ticket : Nat) :
    ∃ t, (L.stack v.backend ks lowest ticket).perform now r s =
        (.ok (map.perform L.lifespan now r).1, t) ∧
      L.Mirrors v sound ks lowest now t (map.perform L.lifespan now r).2 := by
  have layers : (L.stack v.backend ks lowest ticket).stack.layers = L.layers v.backend ks := rfl
  cases r with
  | append id? fresh fields =>
    cases id? with
    | none => exact appendFresh_mirrors hv hnodup hmem h hvalid.1 hvalid.2 ticket
    | some id => exact appendTo_mirrors hv hnodup hmem h fresh hvalid.1 hvalid.2 ticket
  | put record =>
    have hfits : L.Fits record.id record := fits_of_valid hvalid.1 hvalid.2
    obtain ⟨t, ht, hafter⟩ := writeExpiring_mirrors hv hnodup hmem layers h hfits
      (expiryAfter now L.lifespan)
    obtain ⟨-, hchecked⟩ := hfits.checked s
    exact ⟨t, (Action.bind_ok hchecked _).trans ht, hafter⟩
  | get id => exact read_mirrors hv hmem layers h id
  | remove id => exact remove_mirrors hv hnodup hmem layers h id
  | keys => exact keys_mirrors hv h
  | query q =>
    obtain ⟨t, ht, hafter⟩ := scan_mirrors hv h q
    exact ⟨t, Action.bind_ok ht _, hafter⟩
  | count q =>
    obtain ⟨t, ht, hafter⟩ := scan_mirrors hv h q
    exact ⟨t, Action.bind_ok ht _, hafter⟩
  | upkeep verb =>
    obtain ⟨t, ht, hafter⟩ := upkeep_mirrors hv hnodup hmem layers h verb
    refine ⟨t, ?_, hafter⟩
    cases verb <;> exact ht

end

end Layout

end LayeredStore
