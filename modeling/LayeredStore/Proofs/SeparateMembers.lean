import LayeredStore.Proofs.GroupCalls
import LayeredStore.Proofs.Isolation
import LayeredStore.Proofs.StorageParts

/-! # Groups of separate members

A member of a group is made of maps and policies (`Layer.MadeOf`, `Member.MadeOf`), which are
parts of the storage.

`GroupCall.carried_out` is all that is to be said of a call to a group.  That every member is
attempted, and what is reported, holds of any members.  Where no two members have a part in
common, each ends up as if it had been called alone.  And a removal that succeeds answers
whether some map held a live entry.
-/
namespace LayeredStore

open ExpiringMap

variable {σ ι β : Type} [PolicyKeeper σ]

/-! ### What members are made of -/

/-- A layer is a table on some maps of a vault, or one of its maps. -/
inductive Layer.MadeOf (v : Vault σ ι) : {V : Type} → Layer σ V → List ι → Prop
  | table (t : Table σ) {is : List ι} (h : t.maps = is.map v.backend) : MadeOf v t.layer is
  | map (i : ι) : MadeOf v (.ofBackend (v.backend i)) [i]

/-- A member of a coordinator is a layer or a stack of layers. -/
inductive Member.MadeOf (v : Vault σ ι) : Member σ → List (ι ⊕ Nat) → Prop
  | layer {V : Type} {l : Layer σ V} {is : List ι} (h : l.MadeOf v is) :
      MadeOf v l.member (is.map .inl)
  | stack {V : Type} {stack : Stack σ V} {belongings : List (List ι)}
      (h : List.Forall₂ (Layer.MadeOf v) stack.layers belongings) :
      MadeOf v stack.member (.inr stack.ticket :: belongings.flatten.map .inl)

/-- The parts of the storage that the members of a group have. -/
def GroupCall.Owns (v : Vault σ ι) (parts : List (List (ι ⊕ Nat))) : GroupCall σ → Prop
  | write stack _ _ _ | remove stack _ | upkeepStack stack _ =>
    ∃ belongings, List.Forall₂ (Layer.MadeOf v) stack.layers belongings ∧
      parts = belongings.map (List.map .inl)
  | removeRecord t _ | upkeepTable t _ =>
    ∃ is : List ι, t.maps = is.map v.backend ∧ parts = is.map fun i => [.inl i]
  | upkeep members _ => List.Forall₂ (Member.MadeOf v) members parts
  | upkeepCatalog c _ => List.Forall₂ (Member.MadeOf v) c.members parts

section

variable {v : Vault σ ι} {look : ι → σ → β} (hv : v.Divides look)
include hv

theorem Layer.MadeOf.worksOn {V : Type} {l : Layer σ V} {is : List ι} (h : l.MadeOf v is) :
    l.WorksOn (partOf look) (· ∈ is.map Sum.inl) := by
  have hmap : ∀ i ∈ is, (v.backend i).WorksOn (partOf look) (· ∈ is.map Sum.inl) := by
    intro i hi r now
    refine (hv.requests i r now).mono ?_
    rintro _ rfl
    exact List.mem_map_of_mem hi
  cases h with
  | table t ht =>
    refine Table.layer_worksOn fun b hb => ?_
    rw [ht] at hb
    obtain ⟨i, hi, rfl⟩ := List.mem_map.1 hb
    exact hmap i hi
  | map i => exact (hmap i List.mem_cons_self).layer

/-- Layers together work on all their maps. -/
theorem Layer.MadeOf.all_worksOn {V : Type} {layers : List (Layer σ V)} {belongings : List (List ι)}
    (h : List.Forall₂ (Layer.MadeOf v) layers belongings) :
    ∀ l ∈ layers, l.WorksOn (partOf look) (· ∈ belongings.flatten.map Sum.inl) := by
  induction h with
  | nil => exact nofun
  | @cons l is layers belongings hl _ ih =>
    rw [List.flatten_cons, List.map_append]
    refine List.forall_mem_cons.2 ⟨?_, fun m hm => ?_⟩
    · exact (hl.worksOn hv).mono fun _ => List.mem_append_left _
    · exact (ih m hm).mono fun _ => List.mem_append_right _

theorem Member.MadeOf.worksOn {m : Member σ} {own : List (ι ⊕ Nat)} (h : m.MadeOf v own)
    (verb : Upkeep) (now : Int64) : (m.upkeep verb now).WorksOn (partOf look) (· ∈ own) := by
  cases h with
  | layer h => exact (h.worksOn hv).upkeep verb now
  | @stack V stack belongings h =>
    have hlayers : ∀ l ∈ stack.layers, l.WorksOn (partOf look)
        (· ∈ Sum.inr stack.ticket :: belongings.flatten.map Sum.inl) := fun l hl =>
      (Layer.MadeOf.all_worksOn hv h l hl).mono fun _ => List.mem_cons_of_mem _
    refine Stack.upkeep_worksOn hlayers ?_ verb now
    refine (hv.drawEscalation_worksOn stack).mono ?_
    rintro _ rfl
    exact List.mem_cons_self

/-- **The share of a member works on what the member has.** -/
theorem GroupCall.Owns.worksOn {call : GroupCall σ} {parts : List (List (ι ⊕ Nat))}
    (h : call.Owns v parts) (now : Int64) (s : σ) :
    List.Forall₂ (fun m own => m.attempt.WorksOn (partOf look) (· ∈ own)) (call.shares now s)
      parts := by
  -- A share of a layer, and a share of a map of a table.
  have hlayers : ∀ {V : Type} {layers : List (Layer σ V)} {belongings : List (List ι)}
      {share : Layer σ V → Share σ},
      (∀ l is, Layer.MadeOf v l is → (share l).attempt.WorksOn (partOf look) (· ∈ is.map Sum.inl)) →
      List.Forall₂ (Layer.MadeOf v) layers belongings →
      List.Forall₂ (fun m own => m.attempt.WorksOn (partOf look) (· ∈ own)) (layers.map share)
        (belongings.map (List.map Sum.inl)) := by
    intro V layers belongings share hshare hmade
    rw [List.forall₂_map_left_iff, List.forall₂_map_right_iff]
    exact hmade.imp hshare
  have hmaps : ∀ {maps : List (Backend σ)} {is : List ι} {share : Backend σ → Share σ},
      (∀ i, (share (v.backend i)).attempt.WorksOn (partOf look) (· ∈ [Sum.inl i])) →
      maps = is.map v.backend →
      List.Forall₂ (fun m own => m.attempt.WorksOn (partOf look) (· ∈ own)) (maps.map share)
        (is.map fun i => [Sum.inl i]) := by
    rintro _ is share hshare rfl
    rw [List.map_map, List.forall₂_map_left_iff, List.forall₂_map_right_iff, List.forall₂_same]
    exact fun i _ => hshare i
  have hmembers : ∀ {members : List (Member σ)} {verb : Upkeep},
      List.Forall₂ (Member.MadeOf v) members parts →
      List.Forall₂ (fun m own => m.attempt.WorksOn (partOf look) (· ∈ own))
        (members.map fun m => m.share verb now) parts := by
    intro members verb hmade
    rw [List.forall₂_map_left_iff]
    exact hmade.imp fun m own hm => .bind (hm.worksOn hv verb now) fun _ => .pure _
  have hmap : ∀ i, (Layer.ofBackend (v.backend i)).WorksOn (partOf look) (· ∈ [Sum.inl i]) :=
    fun i => (Layer.MadeOf.map i).worksOn hv
  cases call with
  | write stack id value expiry =>
    obtain ⟨belongings, hmade, rfl⟩ := h
    exact hlayers (fun l is hl => .bind ((hl.worksOn hv).store now id value expiry)
      fun _ => .pure _) hmade
  | remove stack id =>
    obtain ⟨belongings, hmade, rfl⟩ := h
    exact hlayers (fun l is hl => (hl.worksOn hv).discard now id) hmade
  | removeRecord t id =>
    obtain ⟨is, hmaps', rfl⟩ := h
    exact hmaps (fun i => (hmap i).discard now id) hmaps'
  | upkeep members verb => exact hmembers h
  | upkeepTable t verb =>
    obtain ⟨is, hmaps', rfl⟩ := h
    exact hmaps (fun i => .bind ((hmap i).upkeep verb now) fun _ => .pure _) hmaps'
  | upkeepStack stack verb =>
    obtain ⟨belongings, hmade, rfl⟩ := h
    exact hlayers (fun l is hl => .bind ((hl.worksOn hv).upkeep _ now) fun _ => .pure _) hmade
  | upkeepCatalog c verb => exact hmembers h

end

/-! ### Removals -/

/-- A map of the vault holds a live entry of an identifier. -/
def Vault.Live (v : Vault σ ι) (now : Int64) (id : String) (s : σ) (i : ι) : Prop :=
  ((v.contents i s).live? now id).isSome = true

/-- When it succeeds, the action answers whether some of the maps held a live entry of the
identifier, and these entries are all that is gone. -/
def Action.Removes (x : Action σ StoreError Bool) (v : Vault σ ι) (now : Int64) (id : String)
    (is : List ι) : Prop :=
  ∀ {s found t}, x s = (.ok found, t) → (found = true ↔ ∃ i ∈ is, v.Live now id s i) ∧
    ∀ i, v.Live now id t i ↔ v.Live now id s i ∧ i ∉ is

section

variable {v : Vault σ ι} {now : Int64} {id : String}

theorem removes_map (i : ι) : ((Layer.ofBackend (v.backend i)).discard now id).Removes v now id [i] := by
  intro s found t hend
  have hask : ∃ removed, (v.backend i).perform (.remove id) now s = (.ok removed, t) ∧
      found = removed.isSome := by
    simp only [Layer.ofBackend, Action.mapError, Action.bind_apply] at hend
    rcases hremove : (v.backend i).remove now id s with ⟨failure | removed, u⟩ <;>
      rw [hremove] at hend <;> cases hend
    exact ⟨removed, hremove, rfl⟩
  obtain ⟨removed, hask, rfl⟩ := hask
  obtain ⟨hanswer, hafter⟩ := (v.keeps i).answered hask
  have hremoved : removed = ((v.contents i s).live? now id).map Prod.fst := hanswer
  refine ⟨?_, fun j => ?_⟩
  · rw [hremoved, Option.isSome_map]
    simp [Vault.Live]
  · by_cases hj : j = i
    · subst hj
      have hgone := hafter id
      rw [ExpiringMap.after, live?_set_self] at hgone
      simp [Vault.Live, hgone]
    · have hsame := v.others (Ne.symm hj) (.remove id) now s
      rw [hask] at hsame
      simp [Vault.Live, hsame, hj]

/-- Removals of members that succeed one after another are a removal of them all. -/
theorem Attempts.removes {shares : List (Share σ)} {belongings : List (List ι)} {s t : σ}
    {outcomes : List (Except StoreError Bool)} (h : Attempts shares s outcomes t)
    (hshares : List.Forall₂ (fun m is => m.attempt.Removes v now id is) shares belongings)
    (hall : ∀ outcome ∈ outcomes, ∃ found, outcome = .ok found) :
    (.ok true ∈ outcomes ↔ ∃ i ∈ belongings.flatten, v.Live now id s i) ∧
      ∀ i, v.Live now id t i ↔ v.Live now id s i ∧ i ∉ belongings.flatten := by
  induction h generalizing belongings with
  | nil s =>
    cases hshares
    simp
  | @cons m rest s t u outcome outcomes first others ih =>
    cases hshares with
    | @cons _ is _ belongings hm hrest =>
      obtain ⟨⟨found, rfl⟩, hothers⟩ := List.forall_mem_cons.1 hall
      obtain ⟨hfound, hleft⟩ := hm first
      obtain ⟨hsome, hgone⟩ := ih hrest hothers
      refine ⟨?_, fun i => ?_⟩
      · -- An entry that the first member took was there, and is not found again.
        rw [List.mem_cons, hsome, List.flatten_cons]
        simp only [hleft, List.mem_append]
        constructor
        · rintro (htrue | ⟨i, hi, hlive, -⟩)
          · obtain ⟨i, hi, hlive⟩ := hfound.1 (Except.ok.inj htrue).symm
            exact ⟨i, .inl hi, hlive⟩
          · exact ⟨i, .inr hi, hlive⟩
        · rintro ⟨i, hi, hlive⟩
          by_cases hfirst : i ∈ is
          · exact .inl (congrArg Except.ok (hfound.2 ⟨i, hfirst, hlive⟩)).symm
          · exact .inr ⟨i, hi.resolve_left hfirst, hlive, hfirst⟩
      · rw [hgone, hleft, List.flatten_cons, List.mem_append, not_or, and_assoc]

/-- Shares that are removals are together a removal. -/
theorem Share.together_removes {shares : List (Share σ)} {belongings : List (List ι)}
    (h : List.Forall₂ (fun m is => m.attempt.Removes v now id is) shares belongings)
    (operation : String) : (Share.together operation shares).Removes v now id belongings.flatten := by
  intro s found t hend
  have hreport : Reported operation shares (attemptEach Share.attempt shares s).1 _ :=
    reported (length_attemptEach Share.attempt shares s)
  have hattempts := attempts_attemptEach shares s
  rw [Share.together_eq] at hend
  obtain ⟨hresult, rfl⟩ := Prod.mk.inj hend
  have hall := hreport.ok_iff.1 ⟨found, hresult⟩
  have hremoved := hattempts.removes h hall
  exact ⟨(hreport.found found hresult).trans hremoved.1, hremoved.2⟩

theorem removes_maps (is : List ι) :
    List.Forall₂ (fun (m : Share σ) is => m.attempt.Removes v now id is)
      ((is.map v.backend).map fun b => ⟨b.name, (Layer.ofBackend b).discard now id⟩)
      (is.map fun i => [i]) := by
  rw [List.map_map, List.forall₂_map_left_iff, List.forall₂_map_right_iff, List.forall₂_same]
  exact fun i _ => removes_map i

/-- **A layer's removal** answers whether one of its maps held a live entry. -/
theorem Layer.MadeOf.removes {V : Type} {l : Layer σ V} {is : List ι} (h : l.MadeOf v is) :
    (l.discard now id).Removes v now id is := by
  cases h with
  | table t ht =>
    intro s found t' hend
    have hcall := (GroupCall.removeRecord t id).perform_eq now s
    simp only [GroupCall.perform, GroupCall.shares, GroupCall.operation, GroupCall.start, ht] at hcall
    have hend' : t.remove now id s = (.ok found, t') := hend
    rw [hcall] at hend'
    have hremoved := Share.together_removes (removes_maps is) "remove" hend'
    rwa [← List.flatMap_def, List.flatMap_singleton'] at hremoved
  | map i => exact removes_map i

end

/-! ### The calls -/

/-- Where members have parts of the storage for themselves, every share came to what it comes
to alone, its parts are left as it leaves them alone, and no other part has changed. -/
structure GroupCall.Separate (call : GroupCall σ) (v : Vault σ ι) (look : ι → σ → β)
    (parts : List (List (ι ⊕ Nat))) (now : Int64) (s : σ)
    (outcomes : List (Except StoreError Bool)) : Prop where
  outcome : ∀ {k : Nat} {m}, (call.shares now s)[k]? = some m →
    outcomes[k]? = some (m.attempt (call.start s)).1
  part : ∀ {k : Nat} {m own p}, (call.shares now s)[k]? = some m → parts[k]? = some own → p ∈ own →
    partOf look p (call.perform now s).2 = partOf look p (m.attempt (call.start s)).2
  entries : ∀ {k : Nat} {m own i}, (call.shares now s)[k]? = some m → parts[k]? = some own →
    .inl i ∈ own → v.contents i (call.perform now s).2 = v.contents i (m.attempt (call.start s)).2
  others : ∀ {p}, (∀ own ∈ parts, p ∉ own) →
    partOf look p (call.perform now s).2 = partOf look p (call.start s)

omit [PolicyKeeper σ] in
/-- The maps of all members are those among their parts. -/
theorem exists_mem_parts {belongings : List (List ι)} {p : ι → Prop} :
    (∃ own ∈ belongings.map (List.map (Sum.inl (β := Nat))), ∃ i, .inl i ∈ own ∧ p i) ↔
      ∃ i ∈ belongings.flatten, p i := by
  simp only [List.mem_map, List.mem_flatten]
  constructor
  · rintro ⟨_, ⟨is, his, rfl⟩, i, hi, hp⟩
    obtain ⟨j, hj, hij⟩ := List.mem_map.1 hi
    obtain rfl := Sum.inl.inj hij
    exact ⟨j, ⟨is, his, hj⟩, hp⟩
  · rintro ⟨i, ⟨is, his, hi⟩, hp⟩
    exact ⟨_, ⟨is, his, rfl⟩, i, List.mem_map_of_mem hi, hp⟩

/-- A removal that succeeds answers whether some map of the members held a live entry. -/
theorem GroupCall.Owns.found {call : GroupCall σ} {v : Vault σ ι} {parts : List (List (ι ⊕ Nat))}
    (h : call.Owns v parts) {id : String} (hid : call.removes = some id) {now : Int64} {s : σ}
    {found : Bool} (hend : (call.perform now s).1 = .ok found) :
    found = true ↔ ∃ own ∈ parts, ∃ i, .inl i ∈ own ∧ v.Live now id s i := by
  have hrun := call.perform_eq now s
  cases call with
  | remove stack id' =>
    obtain rfl := Option.some.inj hid
    obtain ⟨belongings, hmade, rfl⟩ := h
    have hshares : List.Forall₂ (fun (m : Share σ) is => m.attempt.Removes v now id' is)
        (stack.layers.map fun l => ⟨l.label, l.discard now id'⟩) belongings := by
      rw [List.forall₂_map_left_iff]
      exact hmade.imp fun l is hl => hl.removes
    have hremoved := Share.together_removes hshares "remove" (hrun.symm.trans (Prod.ext hend rfl))
    exact hremoved.1.trans exists_mem_parts.symm
  | removeRecord t id' =>
    obtain rfl := Option.some.inj hid
    obtain ⟨is, hmaps, rfl⟩ := h
    have hshares : List.Forall₂ (fun (m : Share σ) is => m.attempt.Removes v now id' is) _ _ :=
      removes_maps is
    rw [← hmaps] at hshares
    have hremoved := Share.together_removes hshares "remove" (hrun.symm.trans (Prod.ext hend rfl))
    have hparts : (is.map fun i => [i]).map (List.map Sum.inl) =
        is.map fun i => [(.inl i : ι ⊕ Nat)] := by
      rw [List.map_map]
      rfl
    rw [← hparts]
    exact hremoved.1.trans exists_mem_parts.symm
  | write _ _ _ _ | upkeep _ _ | upkeepTable _ _ | upkeepStack _ _ | upkeepCatalog _ _ => cases hid

/-- **A call to a group reaches every member and reports exactly the failures.**

Every member is attempted once, in order, whatever fails; the result is a success just when no
member failed, and otherwise the partial failure of exactly those that did.

Where the members have parts of the storage for themselves, each is left as it is left when
called alone.  And a removal that succeeds answers whether some member held a live entry. -/
theorem GroupCall.carried_out (call : GroupCall σ) (now : Int64) (s : σ) :
    ∃ outcomes, Attempts (call.shares now s) (call.start s) outcomes (call.perform now s).2 ∧
      Reported (call.operation s) (call.shares now s) outcomes (call.perform now s).1 ∧
      (∀ {ι β : Type} {v : Vault σ ι} {look : ι → σ → β} {parts : List (List (ι ⊕ Nat))},
        v.Divides look → call.Owns v parts → parts.Pairwise List.Disjoint →
          call.Separate v look parts now s outcomes) ∧
      ∀ {ι : Type} {v : Vault σ ι} {parts : List (List (ι ⊕ Nat))} {id : String} {found : Bool},
        call.Owns v parts → call.removes = some id → (call.perform now s).1 = .ok found →
          (found = true ↔ ∃ own ∈ parts, ∃ i, .inl i ∈ own ∧ v.Live now id s i) := by
  have hrun := call.perform_eq now s
  rw [Share.together_eq] at hrun
  have hresult := congrArg Prod.fst hrun
  have hafter := congrArg Prod.snd hrun
  refine ⟨(attemptEach Share.attempt (call.shares now s) (call.start s)).1, ?_, ?_, ?_, ?_⟩
  · rw [hafter]
    exact attempts_attemptEach _ _
  · rw [hresult]
    exact reported (length_attemptEach _ _ _)
  · intro ι β v look parts hv howns hapart
    have hlength : (call.shares now s).length = parts.length := (howns.worksOn hv now s).length_eq
    obtain ⟨halone, hothers⟩ := attemptEach_alone (howns.worksOn hv now s) hapart (call.start s)
    rw [← hafter] at halone hothers
    refine ⟨fun {k m} hm => ?_, fun hm hown hp => (halone hm hown).2 _ hp, fun {k m own i} hm hown hi => ?_,
      fun hp => hothers _ hp⟩
    · obtain ⟨hk, -⟩ := List.getElem?_eq_some_iff.1 hm
      have hown : parts[k]? = some parts[k] := List.getElem?_eq_getElem (hlength ▸ hk)
      exact (halone hm hown).1
    · exact hv.contents (Sum.inl.inj ((halone hm hown).2 _ hi))
  · intro ι v parts id found howns hid hend
    exact howns.found hid hend

/-! ### A disk that cannot be cleared -/

/-- The table of notes on a volume. -/
def notesTable (number : Nat) : Table Site :=
  ⟨"Notes", notes, cachedVault.backend (number, "notes#_oid"),
    .ofList [("text", cachedVault.backend (number, "notes#text"))], 0⟩

/-- The table on both volumes. -/
def notesStack : TableStack Site :=
  ⟨notes, [notesTable 0, notesTable 1], ⟨"Notes", [(notesTable 0).layer, (notesTable 1).layer], 0, 0⟩,
    notesTable 1⟩

/-- The map of its name on both volumes. -/
def notesMap : MapStack Site :=
  ⟨"notes", [.ofBackend (cachedVault.backend (0, "notes")), .ofBackend (cachedVault.backend (1, "notes"))],
    0, 1⟩

/-- A catalog in which both are registered. -/
def notesCatalog : Catalog Site :=
  { cachedCatalog with
    tables := .ofList [("NOTES", notesStack)]
    maps := .ofList [("NOTES", notesMap)] }

/-- The site when the texts on disk cannot be cleared. -/
def stuckSite : Site := Site.setFault 1 ⟨[.upkeep .clear], .io, some ["notes#text"]⟩ cachedSite

/-- What belongs to the table, and what belongs to the map. -/
def notesParts : List (List (Site.MapId ⊕ Nat)) :=
  [[.inr 0, .inl (0, "notes#_oid"), .inl (0, "notes#text"), .inl (1, "notes#_oid"),
      .inl (1, "notes#text")],
    [.inr 1, .inl (0, "notes"), .inl (1, "notes")]]

theorem notesParts_owned :
    (GroupCall.upkeepCatalog notesCatalog .clear).Owns cachedVault notesParts := by
  have htable : ∀ number, (notesTable number).maps =
      [(number, "notes#_oid"), (number, "notes#text")].map cachedVault.backend := fun _ => rfl
  have hstack : notesStack.stack.member.MadeOf cachedVault _ :=
    .stack (.cons (.table _ (htable 0)) (.cons (.table _ (htable 1)) .nil))
  have hmap : notesMap.member.MadeOf cachedVault _ :=
    .stack (.cons (.map (0, "notes")) (.cons (.map (1, "notes")) .nil))
  exact .cons hstack (.cons hmap .nil)

/-- Clearing the catalog fails on the table, and clears everything that can be cleared. -/
theorem GroupCall.carried_out_stuck :
    (∃ e, ((upkeepCatalog notesCatalog .clear).perform 0 stuckSite).1 = .error e ∧
        e.failedMembers = [0]) ∧
      ∃ outcomes, Reported "clear" ((upkeepCatalog notesCatalog .clear).shares 0 stuckSite) outcomes
          ((upkeepCatalog notesCatalog .clear).perform 0 stuckSite).1 ∧
        (upkeepCatalog notesCatalog .clear).Separate cachedVault Site.mapState notesParts 0 stuckSite
          outcomes := by
  have hapart : notesParts.Pairwise List.Disjoint := by simp [notesParts, List.Disjoint]
  have hfails : (match ((upkeepCatalog notesCatalog .clear).perform 0 stuckSite).1 with
    | .error e => decide (e.failedMembers = [0])
    | .ok _ => false) = true := by decide +kernel
  obtain ⟨outcomes, -, hreport, hseparate, -⟩ := carried_out (upkeepCatalog notesCatalog .clear) 0 stuckSite
  refine ⟨?_, outcomes, hreport, hseparate (Site.vault_divides _ _) notesParts_owned hapart⟩
  split at hfails
  · next e he => exact ⟨e, he, of_decide_eq_true hfails⟩
  · cases hfails

end LayeredStore
