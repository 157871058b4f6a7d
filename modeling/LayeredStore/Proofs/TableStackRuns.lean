import LayeredStore.Proofs.Forgetting
import LayeredStore.Proofs.Opening
import Mathlib.Data.List.FinRange

/-! # Runs of a stack of tables

A stack that is opened on reliable stores answers every run of valid requests as one map of
records does, even if the upper tables are cleared, lose records one by one or with a
restart, or are tampered with from outside, as long as all that happens to them is that
they forget.  One event is `TableStackEvent.step_mirrors`, and a run is an induction over
its events (`TableStackEvent.replies_mirrors`).
-/
namespace LayeredStore

/-- What can happen to a stack of tables. -/
inductive TableStackEvent (σ : Type)
  | request (r : RecordRequest)
  /-- One of the tables is cleared. -/
  | clearTable (index : Nat)
  /-- One of the tables loses an identifier. -/
  | removeFrom (index : Nat) (id : String)
  /-- Something that happens to the state behind the stack's back. -/
  | outside (change : σ → σ)
  /-- The same, and the stack is opened anew. -/
  | restart (change : σ → σ)

namespace TableStackEvent

variable {σ : Type}

/-- The kind of answer that comes of an event. -/
def Answer : TableStackEvent σ → Type
  | request r => r.Answer
  | clearTable _ | removeFrom _ _ | outside _ | restart _ => Unit

/-- What comes of an event, given how to open the stack. -/
abbrev Reply (σ : Type) := (e : TableStackEvent σ) × Except StoreError e.Answer

/-- Let an event happen to an open stack. -/
def step [PolicyKeeper σ] (reopen : Action σ StoreError (TableStack σ)) (now : Int64) :
    (e : TableStackEvent σ) → Action (TableStack σ × σ) StoreError e.Answer
  | request r => fun p => (p.1.perform now r).onSecond p
  | clearTable index => fun p =>
    match p.1.tables[index]? with
    | some t => (t.upkeep now .clear).onSecond p
    | none => (.ok (), p)
  | removeFrom index id => fun p =>
    match p.1.tables[index]? with
    | some t => Action.onSecond (do let _ ← t.remove now id) p
    | none => (.ok (), p)
  | outside change => fun p => (.ok (), (p.1, change p.2))
  | restart change => fun p =>
    match reopen (change p.2) with
    | (.ok o, s) => (.ok (), (o, s))
    | (.error e, s) => (.error e, (p.1, s))

/-- What comes of events, each at a time. -/
def replies [PolicyKeeper σ] (reopen : Action σ StoreError (TableStack σ)) :
    List (Int64 × TableStackEvent σ) → TableStack σ × σ → List (Reply σ)
  | [], _ => []
  | (now, e) :: rest, p =>
    ⟨e, (e.step reopen now p).1⟩ :: replies reopen rest (e.step reopen now p).2

end TableStackEvent

namespace RecordMap

variable {σ : Type}

/-- Let an event happen to the map: only requests matter to it. -/
def step (map : RecordMap) (lifespan : UInt64) (now : Int64) :
    (e : TableStackEvent σ) → e.Answer × RecordMap
  | .request r => map.perform lifespan now r
  | .clearTable _ | .removeFrom _ _ | .outside _ | .restart _ => ((), map)

/-- What should come of events, each at a time. -/
def replies (map : RecordMap) (lifespan : UInt64) :
    List (Int64 × TableStackEvent σ) → List (TableStackEvent.Reply σ)
  | [] => []
  | (now, e) :: rest =>
    ⟨e, .ok (map.step lifespan now e).1⟩ :: (map.step lifespan now e).2.replies lifespan rest

end RecordMap

section

variable {σ κ ι : Type} [PolicyKeeper σ] [DecidableEq ι] [DecidableEq κ] {L : Layout κ ι}
  {v : Vault σ ι} {sound : σ → Prop} {uppers : List κ} {lowest : κ} {now : Int64} {s : σ}
  {map : RecordMap}

/-- An event is a valid request, or something that makes upper tables forget. -/
def TableStackEvent.Valid (L : Layout κ ι) (v : Vault σ ι) (sound : σ → Prop) (uppers : List κ)
    (lowest : κ) : TableStackEvent σ → Prop
  | request r => r.Valid L.schema
  | clearTable index | removeFrom index _ => index < uppers.length
  | outside change | restart change => L.Forgets v sound lowest change

variable (hv : v.Reliable sound) (hnodup : (uppers ++ [lowest]).Nodup)
  {reopen : Action σ StoreError (TableStack σ)}
  (hreopen : ∀ s, sound s → ∃ ticket t,
    reopen s = (.ok (L.stack v.backend (uppers ++ [lowest]) lowest ticket), t) ∧
      sound t ∧ ∀ i, v.contents i t = v.contents i s)

include hv hnodup hreopen

/-- **Every event has the outcome that it has for the map.** -/
theorem TableStackEvent.step_mirrors (h : L.Mirrors v sound (uppers ++ [lowest]) lowest now s map)
    {e : TableStackEvent σ} (hvalid : e.Valid L v sound uppers lowest) (ticket : Nat) :
    ∃ ticket' t, e.step reopen now (L.stack v.backend (uppers ++ [lowest]) lowest ticket, s) =
        (.ok (map.step L.lifespan now e).1,
          (L.stack v.backend (uppers ++ [lowest]) lowest ticket', t)) ∧
      L.Mirrors v sound (uppers ++ [lowest]) lowest now t (map.step L.lifespan now e).2 := by
  have hmem : lowest ∈ uppers ++ [lowest] := List.mem_concat_self
  have hupper : ∀ index, index < uppers.length → ∃ k, k ≠ lowest ∧
      (L.stack v.backend (uppers ++ [lowest]) lowest ticket).tables[index]? =
        some (L.table v.backend k) := by
    intro index hindex
    refine ⟨uppers[index], fun heq => ?_, ?_⟩
    · exact (List.nodup_append.1 hnodup).2.2 _ (List.getElem_mem hindex) _ List.mem_cons_self heq
    · simp [Layout.stack, List.getElem?_append_left, hindex]
  cases e with
  | request r =>
    obtain ⟨t, ht, hafter⟩ := Layout.perform_mirrors hv hnodup hmem h hvalid ticket
    refine ⟨ticket, t, ?_, hafter⟩
    simp only [step, Action.onSecond, ht]
    rfl
  | clearTable index =>
    obtain ⟨k, hk, htable⟩ := hupper index hvalid
    obtain ⟨t, ht, hafter⟩ := Layout.clear_mirrors hv h hk
    refine ⟨ticket, t, ?_, hafter⟩
    simp only [step, htable, Action.onSecond, ht]
    rfl
  | removeFrom index id =>
    obtain ⟨k, hk, htable⟩ := hupper index hvalid
    obtain ⟨found, t, ht, hafter⟩ := Layout.discard_mirrors hv h hk id
    refine ⟨ticket, t, ?_, hafter⟩
    simp only [step, htable, Action.onSecond, Action.bind_ok ht]
    rfl
  | outside change => exact ⟨ticket, _, rfl, Layout.forgets_mirrors hvalid h⟩
  | restart change =>
    -- The stack is another one, with a ticket of its own, on maps that only forgot.
    have hlost := Layout.forgets_mirrors hvalid h
    obtain ⟨ticket', t, ht, hsound, hcontents⟩ := hreopen (change s) (Layout.Mirrors.sound_state hlost)
    refine ⟨ticket', t, ?_, Layout.Mirrors.of_contents hlost hsound hcontents⟩
    simp only [step, ht]
    rfl

/-- **All that comes of valid events is what should come of them**, as long as the clock does
not go back. -/
theorem TableStackEvent.replies_mirrors (events : List (Int64 × TableStackEvent σ))
    (h : L.Mirrors v sound (uppers ++ [lowest]) lowest now s map)
    (hstart : ∀ x ∈ events, now ≤ x.1) (hclock : events.Pairwise (·.1 ≤ ·.1))
    (hvalid : ∀ x ∈ events, x.2.Valid L v sound uppers lowest) (ticket : Nat) :
    replies reopen events (L.stack v.backend (uppers ++ [lowest]) lowest ticket, s) =
      map.replies L.lifespan events := by
  induction events generalizing now s map ticket with
  | nil => rfl
  | cons x rest ih =>
    obtain ⟨next, e⟩ := x
    obtain ⟨hnext, hclock⟩ := List.pairwise_cons.1 hclock
    -- Waiting for the event lets records expire in the tables and in the map alike.
    have hlater := h.later (hstart (next, e) List.mem_cons_self)
    obtain ⟨ticket', t, ht, hafter⟩ := step_mirrors hv hnodup hreopen hlater
      (hvalid (next, e) List.mem_cons_self) ticket
    have hrest := ih hafter hnext hclock (fun x hx => hvalid x (List.mem_cons_of_mem _ hx)) ticket'
    rw [replies, ht, hrest]
    rfl

end

section

variable {σ ι : Type} [PolicyKeeper σ] [DecidableEq ι] {v : Vault σ ι} {sound : σ → Prop}
  {n : Nat} {stores : Fin (n + 1) → Factory σ} {place : Fin (n + 1) → String → ι}

/-- **A stack of tables is observationally one map of records.**  Opened on reliable stores
that hold nothing, it answers every run of valid requests as the map does, whatever the upper
tables forget in between. -/
theorem TableStack.replies_eq (hstores : v.OpenedBy sound stores place) (hv : v.Reliable sound)
    (schema : Schema) {settings : Settings}
    (hsettings : settings.validate = .ok ()) (hquery : settings.queryLayer = .lowest)
    {s : σ} (hsound : sound s)
    (hempty : ∀ k f, v.contents (place k (mapName schema.table f)) s = ExpiringMap.empty)
    (events : List (Int64 × TableStackEvent σ)) (hclock : events.Pairwise (·.1 ≤ ·.1))
    (hvalid : ∀ x ∈ events, x.2.Valid (hstores.layout schema settings.lifespan) v sound
      ((List.finRange n).map Fin.castSucc) (Fin.last n)) :
    ∃ o t, TableStack.openOn schema (List.ofFn stores) settings s = (.ok o, t) ∧
      TableStackEvent.replies (TableStack.openOn schema (List.ofFn stores) settings) events (o, t) =
        RecordMap.replies .empty settings.lifespan events := by
  have hall : List.ofFn stores =
      ((List.finRange n).map Fin.castSucc ++ [Fin.last n]).map stores := by
    rw [List.ofFn_eq_map, List.finRange_succ_last]
  have hnodup : ((List.finRange n).map Fin.castSucc ++ [Fin.last n]).Nodup := by
    rw [← List.finRange_succ_last]
    exact List.nodup_finRange (n + 1)
  have hopen : ∀ s, sound s → ∃ ticket t,
      TableStack.openOn schema (List.ofFn stores) settings s =
        (.ok ((hstores.layout schema settings.lifespan).stack v.backend
          ((List.finRange n).map Fin.castSucc ++ [Fin.last n]) (Fin.last n) ticket), t) ∧
      sound t ∧ ∀ i, v.contents i t = v.contents i s := by
    intro s hs
    rw [hall]
    exact hstores.openStack_ok schema hs hv hsettings hquery _ _
  obtain ⟨ticket, t, ht, hsoundAfter, hcontents⟩ := hopen s hsound
  refine ⟨_, t, ht, ?_⟩
  have hplaces : ∀ k, ∀ i ∈ ((hstores.layout schema settings.lifespan).maps k).places
      (hstores.layout schema settings.lifespan).fields,
      v.contents i t = ExpiringMap.empty := by
    intro k i hi
    rw [hcontents i]
    rcases List.mem_cons.1 hi with rfl | hi
    · exact hempty k idField
    · obtain ⟨f, -, rfl⟩ := List.mem_map.1 hi
      exact hempty k f
  exact TableStackEvent.replies_mirrors hv hnodup hopen events
    (Layout.Mirrors.empty hsoundAfter hplaces) (fun x _ => Int64.minValue_le x.1) hclock hvalid ticket

end

namespace TableStack

/-- Items with a price and a text. -/
def priced : Schema :=
  .ofFields "items" [("price", .float), ("str_val", .text)] (by decide +kernel)

/-- A price of one tenth. -/
def tenth : Value := .float (Binary64.nearest false 1 10)

/-- What is written lives for a minute. -/
def minute : Settings := { Settings.default with lifespan := 60 }

/-- The media of a stack with a cache in memory. -/
def cachedMedium (number : Nat) : Medium := if number = 1 then .disk else .memory

/-- A volume in memory and one on disk. -/
def cached : Site := .ofVolumes default [.new .memory false, .new .disk false]

theorem cached_volume (number : Nat) :
    (Site.volume number).read cached = .new (cachedMedium number) false := by
  refine (Site.read_volume_ofVolumes _ _ number).trans ?_
  match number with
  | 0 | 1 | _ + 2 => rfl

theorem cached_sound : cached.Sound cachedMedium fun _ => false := by
  intro number
  rw [cached_volume]
  exact .new _ false

theorem cached_empty (i : Site.MapId) :
    (Site.vault cachedMedium fun _ => false).contents i cached = ExpiringMap.empty :=
  Site.bareContents_new (cached_volume i.1)

/-- An item is written, updated after a restart, read after its cache was cleared, and
read again when it has expired. -/
def pricedEvents : List (Int64 × TableStackEvent Site) :=
  [(0, .request (.append none "r" [("price", tenth)])),
    (1, .restart (Site.restart [])),
    (2, .request (.append (some "r") "" [("str_val", .text "test")])),
    (3, .clearTable 0),
    (61, .request (.get "r")),
    (61, .request .keys),
    (62, .request (.get "r"))]

/-- What comes of it. -/
def pricedReplies : List (TableStackEvent.Reply Site) :=
  [⟨.request (.append none "r" [("price", tenth)]), .ok ⟨"r", .ofList [("price", tenth)]⟩⟩,
    ⟨.restart (Site.restart []), .ok ()⟩,
    ⟨.request (.append (some "r") "" [("str_val", .text "test")]),
      .ok ⟨"r", .ofList [("str_val", .text "test")]⟩⟩,
    ⟨.clearTable 0, .ok ()⟩,
    ⟨.request (.get "r"), .ok (some ⟨"r", .ofList [("price", tenth), ("str_val", .text "test")]⟩)⟩,
    ⟨.request .keys, .ok (.ofList [("r", ())])⟩,
    ⟨.request (.get "r"), .ok none⟩]

/-- An item outlives the restart of its cache, and expires. -/
theorem replies_eq_priced :
    ∃ o t, openOn priced (List.ofFn fun k : Fin 2 => Site.factory cached k.val) minute cached =
        (.ok o, t) ∧
      TableStackEvent.replies
        (openOn priced (List.ofFn fun k : Fin 2 => Site.factory cached k.val) minute)
        pricedEvents (o, t) = pricedReplies := by
  have hstores := Site.openedBy cachedMedium (fun _ => false) cached (fun k : Fin 2 => k.val)
    Fin.eq_of_val_eq
  have hreplies : RecordMap.replies .empty minute.lifespan pricedEvents = pricedReplies := rfl
  have hprice : priced.Takes ("price", tenth) := by
    refine ⟨by decide, rfl, fun x hx => ?_⟩
    cases hx
    exact ⟨by decide +kernel, by decide +kernel⟩
  have htext : priced.Takes ("str_val", .text "test") := ⟨by decide, rfl, nofun⟩
  have hrestart : (hstores.layout priced minute.lifespan).Forgets
      (Site.vault cachedMedium fun _ => false) (Site.Sound cachedMedium fun _ => false) (Fin.last 1)
      (Site.restart []) := by
    refine Site.restart_forgets (fun k : Fin 2 => k.val) (fun k i hi => ?_) rfl
    rcases List.mem_cons.1 hi with rfl | hi
    · rfl
    · obtain ⟨f, -, rfl⟩ := List.mem_map.1 hi
      rfl
  rw [← hreplies]
  refine replies_eq hstores (Site.vault_reliable _ _) priced (by decide +kernel) rfl
    cached_sound (fun k f => cached_empty _) pricedEvents (by decide) fun x hx => ?_
  simp only [pricedEvents, List.mem_cons, List.not_mem_nil, or_false] at hx
  rcases hx with rfl | rfl | rfl | rfl | rfl | rfl | rfl
  · exact ⟨by decide, List.forall_mem_singleton.2 hprice⟩
  · exact hrestart
  · exact ⟨by decide, List.forall_mem_singleton.2 htext⟩
  · exact (Nat.zero_lt_one : 0 < 1)
  · trivial
  · trivial
  · trivial

end TableStack

end LayeredStore
