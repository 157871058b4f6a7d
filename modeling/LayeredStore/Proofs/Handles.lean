import LayeredStore.Catalog
import LayeredStore.Proofs.Frames

/-! # Handles

A catalog hands out stacks of tables and layered maps.  Everything that can be asked of such
a handle, of the stack in it or of one of its layers is a `HandleRequest`; whatever the maps
below keep under every request made to them, the handle keeps under all of these
(`Handle.carryOut_keeps`).
-/
namespace LayeredStore

/-- What a catalog hands out. -/
inductive Handle (σ : Type)
  | table (o : TableStack σ)
  | map (m : MapStack σ)

namespace Handle

variable {σ : Type}

/-- The handle reaches storage through layers that are made of such backends only. -/
def BuiltOn (p : Backend σ → Prop) : Handle σ → Prop
  | table o => o.Composed ∧ ∀ t ∈ o.tables, ∀ b ∈ t.maps, p b
  | map m => ∀ l ∈ m.layers, ∃ b, l = Layer.ofBackend b ∧ p b

theorem BuiltOn.mono {p q : Backend σ → Prop} {h : Handle σ} (hp : h.BuiltOn p)
    (hpq : ∀ b, p b → q b) : h.BuiltOn q := by
  cases h with
  | table o => exact ⟨hp.1, fun t ht b hb => hpq b (hp.2 t ht b hb)⟩
  | map m =>
    intro l hl
    obtain ⟨b, hlayer, hb⟩ := hp l hl
    exact ⟨b, hlayer, hpq b hb⟩

end Handle

/-! ### Requests to handles -/

/-- A request to one layer of values. -/
inductive LayerRequest (V : Type)
  | fetch (id : String)
  | store (id : String) (value : V) (expiry : Int64)
  | discard (id : String)
  | upkeep (verb : Upkeep)

/-- A request to a stack of values, or to one of its layers. -/
inductive StackRequest (V : Type)
  | read (id : String)
  | write (id : String) (value : V)
  | writeExpiring (id : String) (value : V) (expiry : Int64)
  | update (id : String) (derive : Option V → V)
  | remove (id : String)
  | upkeep (verb : Upkeep)
  | layer (index : Nat) (r : LayerRequest V)

/-- A request to one table. -/
inductive TableRequest
  | append (id? : Option String) (fresh : String) (fields : List (String × Value))
  | appendExpiring (id? : Option String) (fresh : String) (fields : List (String × Value))
    (expiry : Int64)
  | put (record : Record) (expiry : Int64)
  | get (id : String)
  | getWithExpiry (id : String)
  | contains (id : String)
  | remove (id : String)
  | keys
  | withField (name : String)
  | query (q : Query)
  | count (q : Query)
  | queryText (clause? : Option String) (args : List Value) (order? : Option String)
    (offset limit : Nat)
  | upkeep (verb : Upkeep)

/-- A request to a handle: to a stack of tables, to the stack below or to one of the tables,
or to a layered map. -/
inductive HandleRequest
  | record (r : RecordRequest)
  | withField (name : String)
  | queryText (clause? : Option String) (args : List Value) (order? : Option String)
    (offset limit : Nat)
  | records (r : StackRequest Record)
  | table (index : Nat) (r : TableRequest)
  | values (r : StackRequest Bytes)

section

variable {σ V : Type} {holds : σ → Prop} {now : Int64}

/-- Carry out an action for the member of a list at an index, if there is one. -/
def Action.onMember {ι : Type} (members : List ι) (index : Nat)
    (act : ι → Action σ StoreError Unit) : Action σ StoreError Unit :=
  match members[index]? with
  | some m => act m
  | none => pure ()

theorem Action.onMember_keeps {ι : Type} {members : List ι} {index : Nat}
    {act : ι → Action σ StoreError Unit}
    (h : ∀ m, members[index]? = some m → (act m).Keeps holds) :
    (onMember members index act).Keeps holds := by
  unfold onMember
  split
  · next m hm => exact h m hm
  · exact .pure ()

/-- Carry out a request, whatever the answer. -/
def Layer.carryOut (l : Layer σ V) (now : Int64) : LayerRequest V → Action σ StoreError Unit
  | .fetch id => do let _ ← l.fetch now id
  | .store id value expiry => l.store now id value expiry
  | .discard id => do let _ ← l.discard now id
  | .upkeep verb => l.upkeep verb now

/-- Everything that is done to a layer keeps what holds of the state. -/
structure Layer.KeepsAll (l : Layer σ V) (now : Int64) (holds : σ → Prop) : Prop where
  on : ∀ id, l.KeepsOn now id holds
  upkeep : ∀ verb, (l.upkeep verb now).Keeps holds

theorem Layer.carryOut_keeps {l : Layer σ V} (h : l.KeepsAll now holds) (r : LayerRequest V) :
    (l.carryOut now r).Keeps holds := by
  cases r with
  | fetch id => exact .bind (h.on id).fetch fun _ => .pure _
  | store id value expiry => exact (h.on id).store value expiry
  | discard id => exact .bind (h.on id).discard fun _ => .pure _
  | upkeep verb => exact h.upkeep verb

/-- Carry out a request, whatever the answer. -/
def Stack.carryOut [PolicyKeeper σ] (stack : Stack σ V) (now : Int64) :
    StackRequest V → Action σ StoreError Unit
  | .read id => do let _ ← stack.read now id
  | .write id value => stack.write now id value
  | .writeExpiring id value expiry => stack.writeExpiring now id value expiry
  | .update id derive => do let _ ← stack.update now id derive
  | .remove id => do let _ ← stack.remove now id
  | .upkeep verb => stack.upkeep now verb
  | .layer index r => Action.onMember stack.layers index fun l => l.carryOut now r

theorem Stack.carryOut_keeps [PolicyKeeper σ] {stack : Stack σ V}
    (h : ∀ l ∈ stack.layers, l.KeepsAll now holds)
    (hpolicy : ∀ ticket p s, holds s → holds ((PolicyKeeper.policy ticket).write p s))
    (r : StackRequest V) : (stack.carryOut now r).Keeps holds := by
  have hon := fun id l hl => (h l hl).on id
  cases r with
  | read id => exact .bind (read_keeps (hon id)) fun _ => .pure _
  | write id value => exact writeExpiring_keeps (hon id) value _
  | writeExpiring id value expiry => exact writeExpiring_keeps (hon id) value expiry
  | update id derive => exact .bind (update_keeps (hon id) derive) fun _ => .pure _
  | remove id => exact .bind (remove_keeps (hon id)) fun _ => .pure _
  | upkeep verb => exact upkeep_keeps (fun l hl carried _ => (h l hl).upkeep carried) (hpolicy _)
  | layer index r =>
    refine Action.onMember_keeps fun l hl => ?_
    exact Layer.carryOut_keeps (h l (List.mem_of_getElem? hl)) r

/-- Carry out a request, whatever the answer. -/
def Table.carryOut (t : Table σ) (now : Int64) : TableRequest → Action σ StoreError Unit
  | .append id? fresh fields => do let _ ← t.append now id? fresh fields
  | .appendExpiring id? fresh fields expiry => do
    let _ ← t.appendExpiring now id? fresh fields expiry
  | .put record expiry => t.put now record expiry
  | .get id => do let _ ← t.get now id
  | .getWithExpiry id => do let _ ← t.getWithExpiry now id
  | .contains id => do let _ ← t.contains now id
  | .remove id => do let _ ← t.remove now id
  | .keys => do let _ ← t.keys now
  | .withField name => do let _ ← t.withField now name
  | .query q => do let _ ← t.query now q
  | .count q => do let _ ← t.count now q
  | .queryText clause? args order? offset limit => do
    let _ ← t.queryText now clause? args order? offset limit
  | .upkeep verb => t.upkeep now verb

theorem Table.carryOut_keeps {t : Table σ}
    (h : ∀ b ∈ t.maps, b.KeepsOn now (fun _ => True) holds) (r : TableRequest) :
    (t.carryOut now r).Keeps holds := by
  have hid : ∀ (id : String) (q : Request), q.key? = some id → True := fun _ _ _ => trivial
  cases r with
  | append id? fresh fields =>
    exact .bind (appendExpiring_keeps h (hid _) fields _) fun _ => .pure _
  | appendExpiring id? fresh fields expiry =>
    exact .bind (appendExpiring_keeps h (hid _) fields expiry) fun _ => .pure _
  | put record expiry => exact put_keeps h (hid _) expiry
  | get id => exact .bind (get_keeps h trivial) fun _ => .pure _
  | getWithExpiry id => exact .bind (getWithExpiry_keeps h (hid id)) fun _ => .pure _
  | contains id => exact .bind (.bind (get_keeps h trivial) fun _ => .pure _) fun _ => .pure _
  | remove id => exact .bind (remove_keeps h trivial) fun _ => .pure _
  | keys => exact .bind (keys_keeps h trivial) fun _ => .pure _
  | withField name =>
    exact .bind (withField_keeps h trivial (fun _ => trivial) name) fun _ => .pure _
  | query q => exact .bind (query_keeps h trivial (fun _ => trivial) q) fun _ => .pure _
  | count q => exact .bind (count_keeps h trivial (fun _ => trivial) q) fun _ => .pure _
  | queryText clause? args order? offset limit =>
    exact .bind (queryText_keeps h trivial (fun _ => trivial) clause? args order? offset limit)
      fun _ => .pure _
  | upkeep verb => exact upkeep_keeps h trivial

theorem Table.layer_keepsAll {t : Table σ}
    (h : ∀ b ∈ t.maps, b.KeepsOn now (fun _ => True) holds) : t.layer.KeepsAll now holds where
  on _ := layer_keepsOn h fun _ _ => trivial
  upkeep _ := upkeep_keeps h trivial

theorem Backend.layer_keepsAll {b : Backend σ} (h : b.KeepsOn now (fun _ => True) holds) :
    (Layer.ofBackend b).KeepsAll now holds where
  on _ := h.layer fun _ _ => trivial
  upkeep verb := (h (.upkeep verb) trivial).mapError _

/-- The layers of a stack of tables keep what its maps keep. -/
theorem TableStack.layers_keepAll {o : TableStack σ} (ho : o.Composed)
    (h : ∀ t ∈ o.tables, ∀ b ∈ t.maps, b.KeepsOn now (fun _ => True) holds) :
    ∀ l ∈ o.stack.layers, l.KeepsAll now holds := by
  intro l hl
  rw [ho.layers] at hl
  obtain ⟨t, ht, rfl⟩ := List.mem_map.1 hl
  exact Table.layer_keepsAll (h t ht)

variable [PolicyKeeper σ]

/-- Carry out a request, whatever the answer; one that is not for the handle does nothing. -/
def Handle.carryOut (h : Handle σ) (now : Int64) (r : HandleRequest) :
    Action σ StoreError Unit :=
  match h, r with
  | .table o, .record r => do let _ ← o.perform now r
  | .table o, .withField name => do let _ ← o.withField now name
  | .table o, .queryText clause? args order? offset limit => do
    let _ ← o.queryText now clause? args order? offset limit
  | .table o, .records r => o.stack.carryOut now r
  | .table o, .table index r => Action.onMember o.tables index fun t => t.carryOut now r
  | .map m, .values r => m.carryOut now r
  | _, _ => pure ()

namespace Handle

variable {h : Handle σ} (hbuilt : h.BuiltOn fun b => b.KeepsOn now (fun _ => True) holds)
  (hpolicy : ∀ ticket p s, holds s → holds ((PolicyKeeper.policy ticket).write p s))
include hbuilt hpolicy

/-- **What the maps below keep, every request to a handle keeps.** -/
theorem carryOut_keeps (r : HandleRequest) : (h.carryOut now r).Keeps holds := by
  cases h with
  | table o =>
    obtain ⟨ho, htables⟩ := hbuilt
    have hquery := htables o.queryTable ho.queryTable
    cases r with
    | record r =>
      exact .bind (TableStack.perform_keeps ho (fun _ _ => trivial) htables (hpolicy _))
        fun _ => .pure _
    | withField name =>
      exact .bind (Table.withField_keeps hquery trivial (fun _ => trivial) name) fun _ => .pure _
    | queryText clause? args order? offset limit =>
      exact .bind (Table.queryText_keeps hquery trivial (fun _ => trivial) clause? args order?
        offset limit) fun _ => .pure _
    | records r => exact Stack.carryOut_keeps (TableStack.layers_keepAll ho htables) hpolicy r
    | table index r =>
      refine Action.onMember_keeps fun t ht => ?_
      exact Table.carryOut_keeps (htables t (List.mem_of_getElem? ht)) r
    | values r => exact .pure ()
  | map m =>
    cases r with
    | values r =>
      refine Stack.carryOut_keeps (fun l hl => ?_) hpolicy r
      obtain ⟨b, rfl, hb⟩ := hbuilt l hl
      exact Backend.layer_keepsAll hb
    | record _ | withField _ | queryText _ _ _ _ _ | records _ | table _ _ => exact .pure ()

end Handle

end

end LayeredStore
