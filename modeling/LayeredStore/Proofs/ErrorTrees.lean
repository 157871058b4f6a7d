import LayeredStore.Proofs.FailureReports
import LayeredStore.Proofs.Handles

/-! # Trees of errors

An error is well formed when every partial failure in it names some member, its members in
ascending places below the number attempted (`StoreError.WellFormed`).  Such an error may be
retried just when every cause at its leaves is an outage
(`StoreError.WellFormed.isRetryable_iff`); the partial failure of no member at all would be
the one tree for which that is wrong.

Whatever the backends fail with, the operations of tables, stacks and handles only end in
well-formed errors (`Action.Surfaces`, `Handle.carryOut_surfaces`).  A partial failure is
made in two places, a fan-out (`fanOut_surfaces`) and a read that found nothing
(`Stack.read_surfaces`); everything else passes on what these give or makes a leaf.
-/
namespace LayeredStore

namespace StoreError

/-- The error has no causes below it. -/
def IsLeaf : StoreError → Prop
  | partialFailure _ _ _ => False
  | _ => True

/-- A backend could not be reached, or reading or writing failed. -/
def IsOutage : StoreError → Prop
  | storage (.unavailable _) | storage (.io _) => True
  | _ => False

mutual
/-- The causes at the leaves of an error. -/
def leaves : StoreError → List StoreError
  | partialFailure _ _ failures => memberLeaves failures
  | e => [e]

/-- The leaves of several members' failures. -/
def memberLeaves : List (MemberFailure StoreError) → List StoreError
  | [] => []
  | f :: rest => causeLeaves f ++ memberLeaves rest

/-- The leaves of one member's failure. -/
def causeLeaves : MemberFailure StoreError → List StoreError
  | ⟨_, _, cause⟩ => cause.leaves
end

/-- Every partial failure in the tree names some member, and its members in ascending places
below the number attempted. -/
inductive WellFormed : StoreError → Prop
  | leaf {e : StoreError} (h : e.IsLeaf) : WellFormed e
  | group {operation : String} {attempted : Nat} {failures : List (MemberFailure StoreError)}
      (some : failures ≠ []) (places : Ascending 0 attempted failures)
      (causes : ∀ f ∈ failures, WellFormed f.cause) :
      WellFormed (partialFailure operation attempted failures)

theorem leaves_of_isLeaf {e : StoreError} (h : e.IsLeaf) : e.leaves = [e] := by
  cases e with
  | partialFailure _ _ _ => exact h.elim
  | _ => rfl

theorem mem_leaves_partialFailure {operation : String} {attempted : Nat}
    {failures : List (MemberFailure StoreError)} {leaf : StoreError} :
    leaf ∈ (partialFailure operation attempted failures).leaves ↔
      ∃ f ∈ failures, leaf ∈ f.cause.leaves := by
  rw [leaves]
  induction failures with
  | nil => simp [memberLeaves]
  | cons f rest ih =>
    have hcause : causeLeaves f = f.cause.leaves := by rw [causeLeaves]
    simp [memberLeaves, hcause, ih]

theorem isRetryable_of_isLeaf {e : StoreError} (h : e.IsLeaf) :
    e.isRetryable = true ↔ e.IsOutage := by
  cases e with
  | partialFailure _ _ _ => exact h.elim
  | storage failure => cases failure <;> simp [isRetryable, StorageFailure.isRetryable, IsOutage]
  | _ => simp [isRetryable, IsOutage]

/-- **A well-formed error may be retried just when every leaf is an outage.** -/
theorem WellFormed.isRetryable_iff {e : StoreError} (h : e.WellFormed) :
    e.isRetryable = true ↔ ∀ leaf ∈ e.leaves, leaf.IsOutage := by
  induction h with
  | leaf h => rw [leaves_of_isLeaf h, List.forall_mem_singleton, isRetryable_of_isLeaf h]
  | @group operation attempted failures some places causes ih =>
    have hsome : (!failures.isEmpty) = true := by
      cases failures with
      | nil => exact absurd rfl some
      | cons f rest => rfl
    rw [isRetryable, hsome, Bool.true_and, allRetryable_eq_all, List.all_eq_true]
    constructor
    · intro hall leaf hleaf
      obtain ⟨f, hf, hbelow⟩ := mem_leaves_partialFailure.1 hleaf
      exact (ih f hf).1 (hall f hf) leaf hbelow
    · intro hall f hf
      exact (ih f hf).2 fun leaf hleaf => hall leaf (mem_leaves_partialFailure.2 ⟨f, hf, hleaf⟩)

end StoreError

/-! ### Errors that actions surface -/

/-- Whatever error an action ends in is well formed. -/
def Action.Surfaces {σ α : Type} (x : Action σ StoreError α) : Prop :=
  ∀ ⦃s e t⦄, x s = (.error e, t) → e.WellFormed

namespace Action.Surfaces

variable {σ α β : Type}

theorem pure (a : α) : (Pure.pure a : Action σ StoreError α).Surfaces := by
  intro s e t h
  cases h

theorem fail {e : StoreError} (h : e.IsLeaf) : (Action.fail e : Action σ StoreError α).Surfaces := by
  intro s e t hend
  cases hend
  exact .leaf h

theorem ofExcept {x : Except StoreError α} (h : ∀ e, x = .error e → e.IsLeaf) :
    (Action.ofExcept x : Action σ StoreError α).Surfaces := by
  intro s e t hend
  exact .leaf (h e (congrArg Prod.fst hend))

theorem bind {x : Action σ StoreError α} {f : α → Action σ StoreError β} (hx : x.Surfaces)
    (hf : ∀ a, (f a).Surfaces) : (x >>= f).Surfaces := by
  intro s e t hend
  rcases hfirst : x s with ⟨e' | a, u⟩
  · rw [Action.bind_error hfirst] at hend
    cases hend
    exact hx hfirst
  · rw [Action.bind_ok hfirst] at hend
    exact hf a hend

/-- A failure of a backend is a leaf. -/
theorem storage (x : Action σ StorageFailure α) : (x.mapError StoreError.storage).Surfaces := by
  intro s e t hend
  unfold Action.mapError at hend
  split at hend <;> cases hend
  exact .leaf trivial

theorem onMember {ι : Type} {members : List ι} {index : Nat} {act : ι → Action σ StoreError Unit}
    (h : ∀ m, members[index]? = some m → (act m).Surfaces) :
    (Action.onMember members index act).Surfaces := by
  unfold Action.onMember
  split
  · next m hm => exact h m hm
  · exact .pure ()

end Action.Surfaces

section

variable {σ ι α : Type} {act : ι → Action σ StoreError α} {members : List ι}

theorem attemptEach_wellFormed (h : ∀ m ∈ members, (act m).Surfaces) {s : σ} {e : StoreError}
    (he : .error e ∈ (attemptEach act members s).1) : e.WellFormed := by
  induction members generalizing s with
  | nil => cases he
  | cons m rest ih =>
    rcases List.mem_cons.1 he with hfirst | hrest
    · exact h m List.mem_cons_self (Prod.ext hfirst.symm rfl)
    · exact ih (fun n hn => h n (List.mem_cons_of_mem m hn)) hrest

/-- **A fan-out makes a well-formed error of its members' errors.** -/
theorem fanOut_surfaces (h : ∀ m ∈ members, (act m).Surfaces) (operation : String)
    (label : ι → String) : (fanOut operation label act members).Surfaces := by
  intro s e t hend
  have hcauses := fun e => attemptEach_wellFormed h (s := s) (e := e)
  unfold fanOut at hend
  generalize attemptEach act members s = attempts at hcauses hend
  obtain ⟨outcomes, u⟩ := attempts
  simp only at hcauses hend
  split at hend
  · cases hend
  · next hsome =>
    cases hend
    have hplaces := failuresFrom_ascending label 0 members outcomes
    rw [Nat.zero_add] at hplaces
    refine .group hsome hplaces fun f hf => ?_
    obtain ⟨i, m, e, -, he, rfl⟩ := mem_failuresFrom.1 hf
    exact hcauses e (List.mem_of_getElem? he)

theorem Member.upkeepAll_surfaces {members : List (Member σ)} {verb : Upkeep} {now : Int64}
    (h : ∀ m ∈ members, (m.upkeep verb now).Surfaces) :
    (Member.upkeepAll members verb now).Surfaces :=
  .bind (fanOut_surfaces h _ _) fun _ => .pure _

end

/-! ### Refused input -/

theorem checkName_isLeaf {name : String} {e : StoreError} (h : checkName name = .error e) :
    e.IsLeaf := by
  unfold checkName at h
  split at h <;> cases h
  trivial

namespace Schema

variable {schema : Schema} {e : StoreError}

theorem checkId_isLeaf {id : String} (h : schema.checkId id = .error e) : e.IsLeaf := by
  unfold checkId at h
  split at h <;> cases h
  trivial

theorem require_isLeaf {name : String} (h : schema.require name = .error e) : e.IsLeaf := by
  unfold require at h
  split at h <;> cases h
  trivial

theorem checkAll_isLeaf {fields : List (String × Value)} (h : schema.checkAll fields = .error e) :
    e.IsLeaf := by
  induction fields with
  | nil => cases h
  | cons field rest ih =>
    rw [checkAll] at h
    split at h
    · exact ih h
    · next refused hcheck =>
      cases h
      unfold check at hcheck
      split at hcheck
      · next hrequire =>
        cases hcheck
        exact require_isLeaf hrequire
      · split at hcheck <;> cases hcheck
        trivial

end Schema

/-! ### Tables -/

namespace Table

variable {σ : Type}

theorem openMaps_surfaces (factory : Factory σ) (table : String) (suffixes : List String) :
    (openMaps factory table suffixes).Surfaces := by
  induction suffixes with
  | nil => exact .pure []
  | cons suffix rest ih => exact .bind (.storage _) fun _ => .bind ih fun _ => .pure _

theorem openOn_surfaces (factory : Factory σ) (schema : Schema) (lifespan : UInt64) :
    (openOn factory schema lifespan).Surfaces :=
  .bind (.storage _) fun _ => .bind (openMaps_surfaces _ _ _) fun _ => .pure _

variable (t : Table σ) (now : Int64) (id : String)

theorem mark_surfaces (expiry : Int64) : (t.mark now id expiry).Surfaces :=
  .bind (.storage _) fun _ => .pure _

theorem writeFields_surfaces (expiry : Int64) (fields : List (String × Value)) :
    (t.writeFields now id expiry fields).Surfaces := by
  induction fields with
  | nil => exact .pure ()
  | cons field rest ih =>
    rw [writeFields]
    split
    · exact .bind (.storage _) fun _ => ih
    · exact ih

theorem replaceFields_surfaces (record : Record) (expiry : Int64)
    (columns : List (String × Backend σ)) :
    (replaceFields now record expiry columns).Surfaces := by
  induction columns with
  | nil => exact .pure ()
  | cons c rest ih =>
    rw [replaceFields]
    split <;> exact .bind (.storage _) fun _ => ih

theorem appendExpiring_surfaces (id? : Option String) (fresh : String)
    (fields : List (String × Value)) (expiry : Int64) :
    (t.appendExpiring now id? fresh fields expiry).Surfaces := by
  rw [appendExpiring_eq]
  have hid : ∀ e, id?.elim (.ok ()) t.schema.checkId = .error e → e.IsLeaf := by
    cases id? with
    | none => exact nofun
    | some id => exact fun _ h => Schema.checkId_isLeaf h
  exact .bind (.ofExcept hid) fun _ => .bind (.ofExcept fun _ h => Schema.checkAll_isLeaf h)
    fun _ => .bind (mark_surfaces t now _ expiry) fun _ =>
      .bind (writeFields_surfaces t now _ expiry _) fun _ => .pure _

theorem put_surfaces (record : Record) (expiry : Int64) : (t.put now record expiry).Surfaces :=
  .bind (.ofExcept fun _ h => Schema.checkId_isLeaf h) fun _ =>
    .bind (.ofExcept fun _ h => Schema.checkAll_isLeaf h) fun _ =>
      .bind (mark_surfaces t now _ expiry) fun _ => replaceFields_surfaces now record expiry _

theorem remove_surfaces : (t.remove now id).Surfaces :=
  .bind (fanOut_surfaces (fun _ _ => .storage _) _ _) fun _ => .pure _

theorem readFields_surfaces (columns : List (String × Backend σ)) :
    (readFields now id columns).Surfaces := by
  induction columns with
  | nil => exact .pure []
  | cons c rest ih => exact .bind (.storage _) fun _ => .bind ih fun _ => .pure _

theorem get_surfaces : (t.get now id).Surfaces :=
  .bind (.storage _) fun _ => .bind (readFields_surfaces now id _) fun _ => .pure _

theorem readExpiringFields_surfaces (soonest : Int64) (columns : List (String × Backend σ)) :
    (readExpiringFields now id soonest columns).Surfaces := by
  induction columns generalizing soonest with
  | nil => exact .pure _
  | cons c rest ih =>
    refine .bind (.storage _) fun value? => ?_
    cases value? with
    | none => exact ih soonest
    | some value =>
      refine .bind (.storage _) fun expiry? => ?_
      cases expiry? with
      | none => exact ih soonest
      | some expiry => exact .bind (ih _) fun _ => .pure _

theorem getWithExpiry_surfaces : (t.getWithExpiry now id).Surfaces :=
  .bind (.storage _) fun _ => .bind (readExpiringFields_surfaces now id _ _) fun _ => .pure _

theorem contains_surfaces : (t.contains now id).Surfaces :=
  .bind (get_surfaces t now id) fun _ => .pure _

theorem unionKeys_surfaces (known : KeySet) (maps : List (Backend σ)) :
    (unionKeys now known maps).Surfaces := by
  induction maps generalizing known with
  | nil => exact .pure known
  | cons b rest ih => exact .bind (.storage _) fun _ => ih _

theorem keys_surfaces : (t.keys now).Surfaces :=
  .bind (.storage _) fun known => unionKeys_surfaces now known _

theorem materialize_surfaces (ids : List String) : (t.materialize now ids).Surfaces := by
  induction ids with
  | nil => exact .pure []
  | cons id rest ih => exact .bind (get_surfaces t now id) fun _ => .bind ih fun _ => .pure _

theorem withField_surfaces (name : String) : (t.withField now name).Surfaces := by
  unfold withField
  refine .bind (.ofExcept fun _ h => Schema.require_isLeaf h) fun _ => ?_
  split
  · exact .bind (.storage _) fun ids => materialize_surfaces t now ids.keys
  · exact .bind (.pure _) fun ids => materialize_surfaces t now ids.keys

theorem scan_surfaces (q : Query) : (t.scan now q).Surfaces :=
  .bind (keys_surfaces t now) fun _ => .bind (materialize_surfaces t now _) fun _ => .pure _

theorem query_surfaces (q : Query) : (t.query now q).Surfaces :=
  .bind (scan_surfaces t now q) fun _ => .pure _

theorem count_surfaces (q : Query) : (t.count now q).Surfaces :=
  .bind (scan_surfaces t now q) fun _ => .pure _

theorem queryText_surfaces (clause? : Option String) (args : List Value) (order? : Option String)
    (offset limit : Nat) : (t.queryText now clause? args order? offset limit).Surfaces := by
  unfold queryText
  split
  · exact query_surfaces t now _
  · exact .fail trivial

theorem upkeep_surfaces (verb : Upkeep) : (t.upkeep now verb).Surfaces := by
  refine Member.upkeepAll_surfaces fun m hm => ?_
  obtain ⟨b, -, rfl⟩ := List.mem_map.1 hm
  exact .storage _

/-- **Every request to a table** surfaces well-formed errors. -/
theorem carryOut_surfaces (r : TableRequest) : (t.carryOut now r).Surfaces := by
  cases r with
  | append id? fresh fields => exact .bind (appendExpiring_surfaces t now _ _ _ _) fun _ => .pure _
  | appendExpiring id? fresh fields expiry =>
    exact .bind (appendExpiring_surfaces t now _ _ _ _) fun _ => .pure _
  | put record expiry => exact put_surfaces t now record expiry
  | get id => exact .bind (get_surfaces t now id) fun _ => .pure _
  | getWithExpiry id => exact .bind (getWithExpiry_surfaces t now id) fun _ => .pure _
  | contains id => exact .bind (contains_surfaces t now id) fun _ => .pure _
  | remove id => exact .bind (remove_surfaces t now id) fun _ => .pure _
  | keys => exact .bind (keys_surfaces t now) fun _ => .pure _
  | withField name => exact .bind (withField_surfaces t now name) fun _ => .pure _
  | query q => exact .bind (query_surfaces t now q) fun _ => .pure _
  | count q => exact .bind (count_surfaces t now q) fun _ => .pure _
  | queryText clause? args order? offset limit =>
    exact .bind (queryText_surfaces t now _ _ _ _ _) fun _ => .pure _
  | upkeep verb => exact upkeep_surfaces t now verb

end Table

/-! ### Stacks -/

/-- Every operation of a layer surfaces well-formed errors. -/
structure Layer.Surfaces {σ V : Type} (l : Layer σ V) : Prop where
  fetch : ∀ now id, (l.fetch now id).Surfaces
  store : ∀ now id value expiry, (l.store now id value expiry).Surfaces
  discard : ∀ now id, (l.discard now id).Surfaces
  upkeep : ∀ verb now, (l.upkeep verb now).Surfaces

theorem Table.layer_surfaces {σ : Type} (t : Table σ) : t.layer.Surfaces where
  fetch now id := t.getWithExpiry_surfaces now id
  store now id record expiry := t.put_surfaces now { record with id } expiry
  discard now id := t.remove_surfaces now id
  upkeep verb now := t.upkeep_surfaces now verb

theorem Layer.ofBackend_surfaces {σ : Type} (b : Backend σ) : (Layer.ofBackend b).Surfaces where
  fetch _ _ := .storage _
  store _ _ _ _ := .storage _
  discard _ _ := .storage _
  upkeep _ _ := .storage _

theorem Layer.Surfaces.carryOut {σ V : Type} {l : Layer σ V} (h : l.Surfaces) (now : Int64)
    (r : LayerRequest V) : (l.carryOut now r).Surfaces := by
  cases r with
  | fetch id => exact .bind (h.fetch now id) fun _ => .pure _
  | store id value expiry => exact h.store now id value expiry
  | discard id => exact .bind (h.discard now id) fun _ => .pure _
  | upkeep verb => exact h.upkeep verb now

section

variable {σ V : Type} {layers : List (Layer σ V)}

/-- The layers that failed on the way of a search, in ascending places. -/
theorem searchFrom_failures (h : ∀ l ∈ layers, l.Surfaces) (now : Int64) (id : String)
    (place : Nat) (s : σ) :
    Ascending place (place + layers.length) (searchFrom now id place layers s).1.1 ∧
      ∀ f ∈ (searchFrom now id place layers s).1.1, f.cause.WellFormed := by
  induction layers generalizing place s with
  | nil => exact ⟨.nil, List.forall_mem_nil _⟩
  | cons l rest ih =>
    obtain ⟨hl, hrest⟩ := List.forall_mem_cons.1 h
    have hbound : place + (l :: rest).length = place + 1 + rest.length := by
      rw [List.length_cons]
      omega
    rw [hbound, searchFrom]
    rcases hfetch : l.fetch now id s with ⟨e | _ | ⟨value, expiry⟩, t⟩
    · obtain ⟨hplaces, hcauses⟩ := ih hrest (place + 1) t
      exact ⟨hplaces.cons (by omega) l.label e, List.forall_mem_cons.2 ⟨hl.fetch now id hfetch, hcauses⟩⟩
    · obtain ⟨hplaces, hcauses⟩ := ih hrest (place + 1) t
      exact ⟨hplaces.skip, hcauses⟩
    · exact ⟨.nil, List.forall_mem_nil _⟩

end

namespace Stack

variable {σ V : Type} {stack : Stack σ V}

theorem compose_surfaces [PolicyKeeper σ] (name : String) (layers : List (Layer σ V))
    (settings : Settings) : (compose name layers settings).Surfaces := by
  unfold compose
  split
  · exact .fail trivial
  · cases layers with
    | nil => exact .fail trivial
    | cons l rest =>
      intro s e t hend
      cases hend

variable (h : ∀ l ∈ stack.layers, l.Surfaces) (now : Int64) (id : String)
include h

/-- **A read that found nothing although some layer failed** surfaces the failures of those
layers. -/
theorem read_surfaces : (stack.read now id).Surfaces := by
  intro s e t hend
  obtain ⟨hplaces, hcauses⟩ := searchFrom_failures h now id 0 s
  rw [Nat.zero_add] at hplaces
  unfold read at hend
  generalize searchFrom now id 0 stack.layers s = searched at hplaces hcauses hend
  obtain ⟨⟨failures, hit?⟩, u⟩ := searched
  rcases hit? with _ | hit
  · cases failures with
    | nil => cases hend
    | cons f rest =>
      cases hend
      exact .group (List.cons_ne_nil f rest) hplaces hcauses
  · cases hend

theorem writeExpiring_surfaces (value : V) (expiry : Int64) :
    (stack.writeExpiring now id value expiry).Surfaces :=
  .bind (fanOut_surfaces (fun l hl => (h l hl).store now id value expiry) _ _) fun _ => .pure _

theorem update_surfaces (derive : Option V → V) : (stack.update now id derive).Surfaces :=
  .bind (read_surfaces h now id) fun _ => .bind (writeExpiring_surfaces h now id _ _) fun _ => .pure _

theorem remove_surfaces : (stack.remove now id).Surfaces :=
  .bind (fanOut_surfaces (fun l hl => (h l hl).discard now id) _ _) fun _ => .pure _

theorem upkeepLayers_surfaces (verb : Upkeep) : (stack.upkeepLayers now verb).Surfaces := by
  refine Member.upkeepAll_surfaces fun m hm => ?_
  obtain ⟨l, hl, rfl⟩ := List.mem_map.1 hm
  exact (h l hl).upkeep verb now

variable [PolicyKeeper σ]

theorem upkeep_surfaces (verb : Upkeep) : (stack.upkeep now verb).Surfaces := by
  cases verb with
  | setup | teardown | maintenance | clear => exact upkeepLayers_surfaces h now _
  | incremental =>
    intro s e t hend
    rw [upkeep_incremental now (stack.drawEscalation_apply s)] at hend
    exact upkeepLayers_surfaces h now _ hend

theorem carryOut_surfaces (r : StackRequest V) : (stack.carryOut now r).Surfaces := by
  cases r with
  | read id => exact .bind (read_surfaces h now id) fun _ => .pure _
  | write id value => exact writeExpiring_surfaces h now id value _
  | writeExpiring id value expiry => exact writeExpiring_surfaces h now id value expiry
  | update id derive => exact .bind (update_surfaces h now id derive) fun _ => .pure _
  | remove id => exact .bind (remove_surfaces h now id) fun _ => .pure _
  | upkeep verb => exact upkeep_surfaces h now verb
  | layer index r =>
    exact .onMember fun l hl => (h l (List.mem_of_getElem? hl)).carryOut now r

end Stack

/-! ### Stacks of tables and handles -/

namespace TableStack

variable {σ : Type}

theorem openTables_surfaces (schema : Schema) (settings : Settings) (factories : List (Factory σ)) :
    (openTables schema settings factories).Surfaces := by
  induction factories with
  | nil => exact .pure []
  | cons factory rest ih =>
    exact .bind (Table.openOn_surfaces factory schema _) fun _ => .bind ih fun _ => .pure _

variable [PolicyKeeper σ]

theorem ofTables_surfaces (tables : List (Table σ)) (settings : Settings) :
    (ofTables tables settings).Surfaces := by
  cases tables with
  | nil => exact .fail trivial
  | cons first rest =>
    unfold ofTables
    dsimp only
    split
    · exact .fail trivial
    · exact .bind (Stack.compose_surfaces _ _ _) fun _ => .pure _

theorem openOn_surfaces (schema : Schema) (factories : List (Factory σ)) (settings : Settings) :
    (openOn schema factories settings).Surfaces :=
  .bind (openTables_surfaces schema settings factories) fun tables =>
    ofTables_surfaces tables settings

variable {o : TableStack σ} (h : ∀ l ∈ o.stack.layers, l.Surfaces) (now : Int64)
include h

theorem perform_surfaces (r : RecordRequest) : (o.perform now r).Surfaces := by
  cases r with
  | append id? fresh fields =>
    unfold perform append
    cases id? with
    | none =>
      refine .bind (.ofExcept fun _ h => Schema.checkAll_isLeaf h) fun _ => ?_
      exact .bind (Stack.writeExpiring_surfaces h now _ _ _) fun _ => .pure _
    | some id =>
      refine .bind (.ofExcept fun _ h => Schema.checkId_isLeaf h) fun _ => ?_
      refine .bind (.ofExcept fun _ h => Schema.checkAll_isLeaf h) fun _ => ?_
      exact .bind (Stack.update_surfaces h now _ _) fun _ => .pure _
  | put record =>
    exact .bind (.ofExcept fun _ h => Schema.checkAll_isLeaf h) fun _ =>
      Stack.writeExpiring_surfaces h now _ _ _
  | get id => exact Stack.read_surfaces h now id
  | remove id => exact Stack.remove_surfaces h now id
  | keys => exact Table.keys_surfaces _ now
  | query q => exact Table.query_surfaces _ now q
  | count q => exact Table.count_surfaces _ now q
  | upkeep verb => exact Stack.upkeep_surfaces h now verb

end TableStack

/-- **Every request to a handle** surfaces well-formed errors, whatever backends it is built
on. -/
theorem Handle.carryOut_surfaces {σ : Type} [PolicyKeeper σ] {h : Handle σ}
    (hbuilt : h.BuiltOn fun _ => True) (now : Int64) (r : HandleRequest) :
    (h.carryOut now r).Surfaces := by
  cases h with
  | table o =>
    have hlayers : ∀ l ∈ o.stack.layers, l.Surfaces := by
      intro l hl
      rw [hbuilt.1.layers] at hl
      obtain ⟨t, -, rfl⟩ := List.mem_map.1 hl
      exact t.layer_surfaces
    cases r with
    | record r => exact .bind (TableStack.perform_surfaces hlayers now r) fun _ => .pure _
    | withField name => exact .bind (Table.withField_surfaces _ now name) fun _ => .pure _
    | queryText clause? args order? offset limit =>
      exact .bind (Table.queryText_surfaces _ now _ _ _ _ _) fun _ => .pure _
    | records r => exact Stack.carryOut_surfaces hlayers now r
    | table index r => exact .onMember fun t _ => t.carryOut_surfaces now r
    | values r => exact .pure ()
  | map m =>
    cases r with
    | values r =>
      refine Stack.carryOut_surfaces (fun l hl => ?_) now r
      obtain ⟨b, rfl, -⟩ := hbuilt l hl
      exact Layer.ofBackend_surfaces b
    | record _ | withField _ | queryText _ _ _ _ _ | records _ | table _ _ => exact .pure ()

end LayeredStore
