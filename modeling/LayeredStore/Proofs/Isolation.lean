import LayeredStore.Proofs.Sessions

/-! # Residents of a catalog are isolated

Every handle works on maps of its own resident, in every state that a session comes to
(`Session.run_housed`), and an event changes no entry of any other map
(`Session.step_housed`).  As no map belongs to two residents, whatever is done through
one of them leaves everything that the others can reach (`Session.isolated`).
-/
namespace LayeredStore

section

variable {σ κ ι : Type} [PolicyKeeper σ] {v : Vault σ ι} {shape : σ → Prop}
  {stores : κ → Factory σ} {place : κ → String → ι} {free : ι → Prop}
  {given : ι → ExpiringMap Bytes} {ks : List κ}

variable (hstores : v.Supplies shape stores place) (now : Int64)
include hstores

/-- **A request to a handle reaches maps of its resident only.** -/
theorem Handle.carryOut_confined {h : Handle σ} (hh : v.Houses place h)
    (hfree : ∀ i, h.resident.Reaches place i → free i) (r : HandleRequest) :
    (h.carryOut now r).Keeps (v.Confined shape free given) := by
  refine carryOut_keeps (hh.mono ?_) hstores.policy_confined r
  rintro b ⟨i, hi, rfl⟩
  exact hstores.keepsOn (hfree i hi) now

/-- Stores support events through a resident whose maps are free. -/
theorem Vault.Supplies.supports {through? : Option Resident}
    (hfree : ∀ i, (∀ A, through? = some A → A.Reaches place i) → free i) :
    Catalog.Supports now (ks.map stores) (v.Houses place) (v.Confined shape free given) through? where
  issue _ := hstores.issue_confined
  policies := hstores.policy_confined
  tables schema settings :=
    (hstores.openStack_delivers schema.named settings).mono fun _ ho => ⟨ho.1, ho.2.houses⟩
  maps hname := hstores.openLayers_delivers ks hname
  upkeep hh hresident verb := by
    refine Handle.upkeep_keeps (hh.mono ?_) hstores.policy_confined verb
    rintro b ⟨i, hi, rfl⟩ verb
    refine hstores.keepsOn (hfree i ?_) now _ trivial
    intro A hA
    rwa [← hresident A hA]

namespace Session

variable {session : Session σ}

/-- **After an event** everything is housed, and only the maps of the resident that it went
through may hold other entries than before. -/
theorem step_housed (hsession : session.Stocked (ks.map stores) (v.Houses place))
    (hs : shape session.storage) (e : CatalogEvent) :
    (session.step now e).Stocked (ks.map stores) (v.Houses place) ∧
      v.Confined shape (fun i => ∀ A, e.through session = some A → A.Reaches place i)
        (fun i => v.contents i session.storage) (session.step now e).storage := by
  refine step_stocked hsession ⟨hs, fun _ _ => rfl⟩ (hstores.supports now fun _ hi => hi) ?_
  rintro index r h rfl hget
  refine Handle.carryOut_confined hstores now (hsession.handles h (List.mem_of_getElem? hget)) ?_ r
  intro i hi A hA
  have hresident : some h.resident = some A := by
    rw [← hA]
    exact (congrArg (Option.map Handle.resident) hget).symm
  rwa [← Option.some.inj hresident]

theorem run_housed (hsession : session.Stocked (ks.map stores) (v.Houses place))
    (hs : shape session.storage) (events : List (Int64 × CatalogEvent)) :
    (session.run events).Stocked (ks.map stores) (v.Houses place) ∧
      shape (session.run events).storage := by
  induction events generalizing session with
  | nil => exact ⟨hsession, hs⟩
  | cons e rest ih =>
    obtain ⟨hstep, hconfined⟩ := step_housed hstores e.1 hsession hs e.2
    exact ih hstep hconfined.shape

/-- **Residents of a catalog are isolated.**  In every session of a new catalog on stores,
whatever has been done before and whatever fails, an event through one resident changes no
entry that a handle of another resident can reach, at any layer: such a handle works on
backends of the vault only, and their entries are what they were. -/
theorem isolated {ks : List κ} {settings : Settings} {c : Catalog σ}
    (hnew : Catalog.new (ks.map stores) settings = .ok c) {s : σ} (hs : shape s)
    (events : List (Int64 × CatalogEvent)) {e : CatalogEvent} {A : Resident}
    (hA : e.through ((start c s).run events) = some A) {h : Handle σ}
    (hh : h ∈ ((start c s).run events).handles) (hne : h.resident ≠ A) :
    h.BuiltOn fun b => ∃ i, b = v.backend i ∧
      v.contents i (((start c s).run events).step now e).storage =
        v.contents i ((start c s).run events).storage := by
  obtain ⟨hhoused, hshape⟩ := run_housed hstores (start_stocked hnew s) hs events
  have hsame := (step_housed hstores now hhoused hshape e).2.same
  refine (hhoused.handles h hh).mono ?_
  rintro b ⟨i, ⟨k, name, howns, rfl⟩, rfl⟩
  refine ⟨_, rfl, hsame _ fun hreach => ?_⟩
  obtain ⟨l, name', howns', hplace⟩ := hreach A hA
  obtain rfl := hstores.apart hplace
  exact hne (Resident.eq_of_owns howns howns')

end Session

end

/-! ### A table and a map of one name -/

/-- A table of notes, each a text. -/
def notes : Schema := .ofFields "Notes" [("text", .text)] (by decide +kernel)

/-- A cache in memory over a disk, both guarded and metered. -/
def cachedSite : Site := .ofVolumes default [.new .memory true, .new .disk true]

/-- The maps of both. -/
def cachedVault : Vault Site Site.MapId :=
  Site.vault (fun n => if n = 1 then .disk else .memory) fun n => n < 2

/-- A catalog on both volumes. -/
def cachedCatalog : Catalog Site :=
  ⟨[0, 1].map cachedSite.factory, .default, .empty, .empty⟩

/-- A table and a map of one name, opened one after the other. -/
def namesakes : Session Site :=
  (Session.start cachedCatalog cachedSite).run
    [(0, .register notes), (0, .map "notes")]

/-- A note is written through the table. -/
def noteWritten : CatalogEvent :=
  .ask 0 (.record (.append (some "r") "" [("text", .text "test")]))

theorem cachedCatalog_new : Catalog.new ([0, 1].map cachedSite.factory) .default = .ok cachedCatalog := by
  have hvalid : Settings.default.validate = .ok () := by decide +kernel
  unfold Catalog.new
  rw [hvalid]
  rfl

theorem cachedSite_shaped :
    cachedSite.Shaped (fun n => if n = 1 then .disk else .memory) fun n => n < 2 := by
  intro number
  rw [cachedSite, Site.read_volume_ofVolumes]
  match number with
  | 0 | 1 => exact ⟨rfl, rfl⟩
  | n + 2 => exact ⟨(if_neg (by omega)).symm, (decide_eq_false (by omega)).symm⟩

theorem namesakes_residents :
    namesakes.handles.map Handle.resident = [.table "NOTES", .map "NOTES"] := by decide +kernel

/-- Writing into the table leaves the map of its name alone. -/
theorem Session.isolated_namesakes :
    ∃ h ∈ namesakes.handles, h.resident = .map "NOTES" ∧
      h.BuiltOn fun b => ∃ i, b = cachedVault.backend i ∧
        cachedVault.contents i (namesakes.step 0 noteWritten).storage =
          cachedVault.contents i namesakes.storage := by
  have hmap : Resident.map "NOTES" ∈ namesakes.handles.map Handle.resident := by
    rw [namesakes_residents]
    exact List.mem_cons_of_mem _ List.mem_cons_self
  obtain ⟨h, hh, hresident⟩ := List.mem_map.1 hmap
  have hthrough : noteWritten.through namesakes = some (.table "NOTES") := by
    have hget : (namesakes.handles.map Handle.resident)[0]? = some (.table "NOTES") := by
      rw [namesakes_residents]
      rfl
    rwa [List.getElem?_map] at hget
  refine ⟨h, hh, hresident, ?_⟩
  exact Session.isolated (Site.supplies _ _ cachedSite) 0 cachedCatalog_new cachedSite_shaped _
    hthrough hh (by rw [hresident]; decide)

end LayeredStore
