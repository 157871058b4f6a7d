import LayeredStore.Proofs.Vault
import LayeredStore.Site

/-! # The maps of a site are a vault

Volumes do not touch each other, nor do the maps of a volume, its counts and its maps.
So the maps of a site, in memory or on disk, guarded and metered or not, are a vault
(`Site.vault`); without faults all of their requests are answered (`Site.vault_reliable`),
and opening one hands out its backend (`Site.Sound.openMap`).
-/
namespace LayeredStore

namespace Place.Independent

variable {σ τ τ' υ υ' : Type}

theorem inside_left {p : Place σ τ} {q : Place σ τ'} (h : p.Independent q) (a : Place τ υ)
    (b : Place τ' υ') : (p.inside a).Independent (q.inside b) where
  read_of_write _ s := congrArg a.read (h.read_of_write _ s)
  read_of_write' _ s := congrArg b.read (h.read_of_write' _ s)

theorem inside {p : Place σ τ} {a : Place τ υ} {b : Place τ υ'} (h : a.Independent b) :
    (p.inside a).Independent (p.inside b) where
  read_of_write u s := by
    simp only [Place.inside, p.read_write]
    exact h.read_of_write u _
  read_of_write' u s := by
    simp only [Place.inside, p.read_write]
    exact h.read_of_write' u _

end Place.Independent

/-! ### What does not touch what -/

theorem Volume.memoryPlace_independent {a b : String} (h : a ≠ b) :
    (memoryPlace a).Independent (memoryPlace b) where
  read_of_write m v := by simp [memoryPlace, Dictionary.get?_insert_of_ne _ (Ne.symm h)]
  read_of_write' m v := by simp [memoryPlace, Dictionary.get?_insert_of_ne _ h]

theorem Volume.diskPlace_independent {a b : String} (h : a ≠ b) :
    (diskPlace a).Independent (diskPlace b) where
  read_of_write m v := by simp [diskPlace, Dictionary.get?_insert_of_ne _ (Ne.symm h)]
  read_of_write' m v := by simp [diskPlace, Dictionary.get?_insert_of_ne _ h]

namespace Site

theorem volume_independent {a b : Nat} (h : a ≠ b) : (volume a).Independent (volume b) where
  read_of_write v s := by simp [volume, Dictionary.get?_insert_of_ne _ (Ne.symm h)]
  read_of_write' v s := by simp [volume, Dictionary.get?_insert_of_ne _ h]

/-! ### The vault -/

/-- A map of a site: the number of its volume and its name. -/
abbrev MapId := Nat × String

/-- The place of a map in memory. -/
def memoryMap (i : MapId) : Place Site MemoryMap := (volume i.1).inside (Volume.memoryPlace i.2)

/-- The place of a map on disk. -/
def diskMap (i : MapId) : Place Site DiskMap := (volume i.1).inside (Volume.diskPlace i.2)

/-- The place of a map's counts. -/
def counts (i : MapId) : Place Site Stats := (volume i.1).inside (Volume.statsPlace i.2)

/-- The backend of a map on a medium, without guard and meter. -/
def bareMap (medium : Medium) (i : MapId) : Backend Site :=
  match medium with
  | .memory => (MemoryMap.backend ("in-memory:" ++ i.2)).within (memoryMap i)
  | .disk => (DiskMap.backend ("redb:" ++ i.2)).within (diskMap i)
  | .named => (MemoryMap.backend (if i.2.isEmpty then "in-memory" else i.2)).within (memoryMap i)

/-- The entries of a map on a medium. -/
def bareContents (medium : Medium) (i : MapId) (s : Site) : ExpiringMap Bytes :=
  match medium with
  | .memory | .named => MemoryMap.contents ((memoryMap i).read s)
  | .disk => DiskMap.contents ((diskMap i).read s)

theorem keeps_bareMap (medium : Medium) (i : MapId) :
    (bareMap medium i).Keeps (bareContents medium i) := by
  cases medium with
  | memory => exact (MemoryMap.keeps _).within (memoryMap i)
  | disk => exact (DiskMap.keeps _).within (diskMap i)
  | named => exact (MemoryMap.keeps _).within (memoryMap i)

/-- A change to a volume that leaves its maps as they are leaves all entries. -/
theorem bareContents_write (medium : Medium) (i : MapId) {number : Nat} {u : Volume} {s : Site}
    (hmemory : u.memory = ((volume number).read s).memory)
    (hdisk : u.disk = ((volume number).read s).disk) :
    bareContents medium i ((volume number).write u s) = bareContents medium i s := by
  by_cases hi : i.1 = number
  · subst hi
    cases medium <;>
      simp [bareContents, memoryMap, diskMap, Place.inside, Volume.memoryPlace, Volume.diskPlace,
        (volume i.1).read_write, hmemory, hdisk]
  · have h := volume_independent hi
    cases medium <;>
      simp [bareContents, memoryMap, diskMap, Place.inside, h.read_of_write]

theorem bareContents_counts (medium : Medium) (i j : MapId) (t : Stats) (s : Site) :
    bareContents medium i ((counts j).write t s) = bareContents medium i s :=
  bareContents_write medium i rfl rfl

/-- The maps of a new volume are empty. -/
theorem bareContents_new {medium kept : Medium} {wrapped : Bool} {i : MapId} {s : Site}
    (h : (volume i.1).read s = .new kept wrapped) : bareContents medium i s = ExpiringMap.empty := by
  cases medium <;>
    simp [bareContents, memoryMap, diskMap, Place.inside, h, Volume.memoryPlace, Volume.diskPlace,
      Volume.new]

/-- Where names tell the places of a volume apart, numbers and names tell those of a site apart. -/
theorem inside_independent {τ : Type} {place : String → Place Volume τ}
    (hplace : ∀ {a b}, a ≠ b → (place a).Independent (place b)) {i j : MapId} (h : i ≠ j) :
    ((volume i.1).inside (place i.2)).Independent ((volume j.1).inside (place j.2)) := by
  by_cases hnumber : i.1 = j.1
  · have hname : i.2 ≠ j.2 := fun hname => h (Prod.ext hnumber hname)
    rw [hnumber]
    exact .inside (hplace hname)
  · exact (volume_independent hnumber).inside_left _ _

theorem memoryMap_independent {i j : MapId} (h : i ≠ j) :
    (memoryMap i).Independent (memoryMap j) :=
  inside_independent Volume.memoryPlace_independent h

theorem diskMap_independent {i j : MapId} (h : i ≠ j) : (diskMap i).Independent (diskMap j) :=
  inside_independent Volume.diskPlace_independent h

/-- Requests on a map leave the maps of other volumes and names. -/
theorem leaves_bareMap (medium : Nat → Medium) {i j : MapId} (h : i ≠ j) :
    (bareMap (medium i.1) i).Leaves (bareContents (medium j.1) j) := by
  by_cases hv : i.1 = j.1
  · rw [hv]
    cases medium j.1 with
    | memory | named => exact .within (memoryMap_independent (Ne.symm h)) MemoryMap.contents
    | disk => exact .within (diskMap_independent (Ne.symm h)) DiskMap.contents
  · have hvolume := volume_independent (Ne.symm hv)
    cases medium i.1 <;> cases medium j.1 <;>
      first
      | exact .within (hvolume.inside_left _ _) MemoryMap.contents
      | exact .within (hvolume.inside_left _ _) DiskMap.contents

/-- A gate leaves the state as it is. -/
theorem gate_snd (number : Nat) (name : String) (r : Request) (s : Site) :
    (gate number name r s).2 = s := rfl

theorem keeps_wrap {b : Backend Site} {contents : Site → ExpiringMap Bytes}
    (h : b.Keeps contents) (i : MapId)
    (hcounts : ∀ t s, contents ((counts i).write t s) = contents s) :
    (wrap i.1 i.2 b).Keeps contents :=
  (h.guarded fun r s => congrArg contents (gate_snd i.1 i.2 r s)).metered hcounts

theorem leaves_wrap {α : Type} {b : Backend Site} {look : Site → α} (h : b.Leaves look) (i : MapId)
    (hcounts : ∀ t s, look ((counts i).write t s) = look s) : (wrap i.1 i.2 b).Leaves look :=
  (h.guarded fun r s => congrArg look (gate_snd i.1 i.2 r s)).metered hcounts

/-- The backend of a map, where volumes have given media and some are wrapped. -/
def map (medium : Nat → Medium) (wrapped : Nat → Bool) (i : MapId) : Backend Site :=
  if wrapped i.1 then wrap i.1 i.2 (bareMap (medium i.1) i) else bareMap (medium i.1) i

/-- **The maps of a site are a vault**, whatever faults its volumes have. -/
def vault (medium : Nat → Medium) (wrapped : Nat → Bool) : Vault Site MapId where
  backend := map medium wrapped
  contents i := bareContents (medium i.1) i
  keeps i := by
    have h := keeps_bareMap (medium i.1) i
    unfold map
    split
    · exact keeps_wrap h i (bareContents_counts (medium i.1) i i)
    · exact h
  others {i j} hij := by
    have h := leaves_bareMap medium hij
    unfold map
    split
    · exact leaves_wrap h i (bareContents_counts (medium j.1) j i)
    · exact h
  policies _ _ _ _ := rfl
  issue _ _ := rfl

/-! ### Sites without faults -/

/-- A new site has its volumes in their order. -/
theorem read_volume_ofVolumes (random : Randomness) (volumes : List Volume) (number : Nat) :
    (volume number).read (ofVolumes random volumes) = volumes.getD number default := by
  have hpairs : (volumes.zipIdx.map fun p => (p.2, p.1)).map Prod.fst = List.range volumes.length := by
    rw [List.map_map, List.range_eq_range', ← List.zipIdx_map_snd 0 volumes]
    rfl
  have hnodup : ((volumes.zipIdx.map fun p => (p.2, p.1)).map Prod.fst).Nodup := by
    rw [hpairs]
    exact List.nodup_range
  have hget : (ofVolumes random volumes).volumes.get? number = volumes[number]? := by
    cases hv : volumes[number]? with
    | some v =>
      refine Dictionary.get?_ofList_of_mem hnodup (List.mem_map.2 ⟨(v, number), ?_, rfl⟩)
      exact List.mem_zipIdx_iff_getElem?.2 hv
    | none =>
      refine Dictionary.get?_ofList_of_notMem ?_
      rw [hpairs, List.mem_range]
      exact Nat.not_lt.2 (List.getElem?_eq_none_iff.1 hv)
  show Option.getD _ default = _
  rw [hget, List.getD_eq_getElem?_getD]

end Site

/-- A volume of a medium, wrapped or not, has no fault, and nothing on its disk is damaged. -/
structure Volume.Sound (medium : Medium) (wrapped : Bool) (v : Volume) : Prop where
  /-- The medium. -/
  medium : v.medium = medium
  /-- Whether maps are guarded and metered. -/
  wrapped : v.wrapped = wrapped
  /-- There is no fault. -/
  fault : v.fault? = none
  /-- The maps on disk can be read. -/
  intact : ∀ name, DiskMap.Intact ((diskPlace name).read v)

theorem Volume.Sound.new (medium : Medium) (wrapped : Bool) :
    (Volume.new medium wrapped).Sound medium wrapped :=
  ⟨rfl, rfl, rfl, fun _ => .empty⟩

namespace Site

/-- All volumes of a site are sound. -/
def Sound (medium : Nat → Medium) (wrapped : Nat → Bool) (s : Site) : Prop :=
  ∀ number, Volume.Sound (medium number) (wrapped number) ((volume number).read s)

namespace Sound

variable {medium : Nat → Medium} {wrapped : Nat → Bool} {s : Site}

/-- A new site is sound. -/
theorem ofVolumes {random : Randomness} {volumes : List Volume} (h : ∀ number,
    (volumes.getD number default).Sound (medium number) (wrapped number)) :
    Sound medium wrapped (.ofVolumes random volumes) := by
  intro number
  rw [read_volume_ofVolumes]
  exact h number

theorem write (h : Sound medium wrapped s) {number : Nat} {v : Volume}
    (hv : v.Sound (medium number) (wrapped number)) :
    Sound medium wrapped ((volume number).write v s) := by
  intro other
  by_cases hother : other = number
  · subst hother
    rw [(volume other).read_write]
    exact hv
  · rw [(volume_independent hother).read_of_write]
    exact h other

theorem writeMemory (h : Sound medium wrapped s) (i : MapId) (m : MemoryMap) :
    Sound medium wrapped ((memoryMap i).write m s) := by
  have hv := h i.1
  exact h.write ⟨hv.medium, hv.wrapped, hv.fault, hv.intact⟩

theorem writeCounts (h : Sound medium wrapped s) (i : MapId) (t : Stats) :
    Sound medium wrapped ((counts i).write t s) := by
  have hv := h i.1
  exact h.write ⟨hv.medium, hv.wrapped, hv.fault, hv.intact⟩

theorem writeDisk (h : Sound medium wrapped s) (i : MapId) {m : DiskMap} (hm : m.Intact) :
    Sound medium wrapped ((diskMap i).write m s) := by
  have hv := h i.1
  refine h.write ⟨hv.medium, hv.wrapped, hv.fault, fun name => ?_⟩
  by_cases hname : name = i.2
  · subst hname
    rw [(Volume.diskPlace i.2).read_write]
    exact hm
  · rw [(Volume.diskPlace_independent hname).read_of_write]
    exact hv.intact name

theorem failure? (h : Sound medium wrapped s) (number : Nat) (call : Call) (name : String) :
    ((volume number).read s).failure? call name = none := by
  rw [Volume.failure?, (h number).fault]
  split <;> rfl

/-- Without a fault no gate refuses. -/
theorem gate (h : Sound medium wrapped s) (number : Nat) (name : String) (r : Request) :
    Site.gate number name r s = (none, s) := by
  rw [Site.gate, h.failure?]

/-- **Opening a map hands out its backend.** -/
theorem openMap (h : Sound medium wrapped s) (number : Nat) {name : String}
    (hname : name.isEmpty = false) :
    Site.openMap number name s = (.ok ((vault medium wrapped).backend (number, name)), s) := by
  have hcheck : checkOpen number name s = (.ok (), s) := by
    unfold checkOpen
    rw [h.failure?]
  have hbare : openBare number name s = (.ok (bareMap (medium number) (number, name)), s) := by
    unfold openBare
    rw [Action.bind_ok hcheck, Action.bind_ok (a := medium number) (t := s)]
    · unfold bareFactory bareMap
      cases medium number with
      | memory => rfl
      | named => rfl
      | disk =>
        simp only [DiskMap.factory, hname, Bool.false_eq_true, if_false]
        rfl
    · rw [Action.inspect, (h number).medium]
  unfold Site.openMap
  rw [Action.bind_ok hbare, Action.bind_ok (a := wrapped number) (t := s)]
  · rfl
  · rw [Action.inspect, (h number).wrapped]

end Sound

/-- **Without faults, the maps of a site answer every request.** -/
theorem vault_reliable (medium : Nat → Medium) (wrapped : Nat → Bool) :
    (vault medium wrapped).Reliable (Sound medium wrapped) where
  succeeds i := by
    have hmemory : ∀ name, ((MemoryMap.backend name).within (memoryMap i)).Succeeds
        (Sound medium wrapped) := fun name =>
      (MemoryMap.succeeds name).within (memoryMap i) (fun _ _ => trivial)
        fun m s hs _ => hs.writeMemory i m
    have hbare : (bareMap (medium i.1) i).Succeeds (Sound medium wrapped) := by
      unfold bareMap
      cases medium i.1 with
      | memory => exact hmemory _
      | named => exact hmemory _
      | disk =>
        exact (DiskMap.succeeds _).within (diskMap i) (fun s hs => (hs i.1).intact i.2)
          fun m s hs hm => hs.writeDisk i hm
    show (map medium wrapped i).Succeeds _
    unfold map
    split
    · exact (hbare.guarded fun r s hs => hs.gate i.1 i.2 r).metered fun t s hs => hs.writeCounts i t
    · exact hbare
  policies _ _ _ h := h
  issue _ h := h

end Site

end LayeredStore
