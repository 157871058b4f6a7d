import LayeredStore.Proofs.SiteVault
import LayeredStore.Proofs.TableLayout

/-! # Populating upper tables

A get of a stack of tables copies the record that it found into the tables above the one
that had it, and nothing is heard of it where that fails.  But a put into a table marks the
identifier first and then writes column by column: where a column refuses, the columns
before it stand, under a mark, and the next get answers from there.

That get still answers with the record exactly if the first upper table that answers
afterwards answers with it (`Layout.get_again`).
-/
namespace LayeredStore

open ExpiringMap

/-! ### Searching -/

section

variable {σ V κ : Type} {holds : σ → Prop} {now : Int64} {id : String} {layer : κ → Layer σ V}
  {answer : κ → Option (Option (V × Int64))}

/-- The first of several layers that has an entry, the first one having a given place. -/
def locate (found? : κ → Option (V × Int64)) (place : Nat) : List κ → Option (Hit V)
  | [] => none
  | k :: rest =>
    match found? k with
    | some (value, expiry) => some ⟨place, value, expiry⟩
    | none => locate found? (place + 1) rest

theorem locate_append {found? : κ → Option (V × Int64)} {above : List κ}
    (h : ∀ k ∈ above, found? k = none) (place : Nat) (rest : List κ) :
    locate found? place (above ++ rest) = locate found? (place + above.length) rest := by
  induction above generalizing place with
  | nil => rfl
  | cons k above ih =>
    have hrest := ih (fun j hj => h j (List.mem_cons_of_mem k hj)) (place + 1)
    rw [List.cons_append, locate, h k List.mem_cons_self]
    simp only [hrest, List.length_cons, Nat.add_assoc, Nat.add_comm 1]

theorem map_value_locate (found? : κ → Option (V × Int64)) (place : Nat) (ks : List κ) :
    (locate found? place ks).map Hit.value = ks.findSome? fun k => (found? k).map Prod.fst := by
  induction ks generalizing place with
  | nil => rfl
  | cons k rest ih =>
    rw [locate, List.findSome?_cons]
    rcases found? k with _ | ⟨value, expiry⟩
    · exact ih (place + 1)
    · rfl

/-- A search ends at the first layer that has the identifier; layers that fail are passed by. -/
theorem searchFrom_yields
    (hfetch : ∀ k s, holds s → Yields holds ((layer k).fetch now id s) (answer k))
    (ks : List κ) (place : Nat) {s : σ} (h : holds s) :
    holds (searchFrom now id place (ks.map layer) s).2 ∧
      (searchFrom now id place (ks.map layer) s).1.2 =
        locate (fun k => (answer k).join) place ks := by
  induction ks generalizing s place with
  | nil => exact ⟨h, rfl⟩
  | cons k rest ih =>
    obtain ⟨hanswer, hk⟩ := hfetch k s h
    rw [List.map_cons, searchFrom, locate, ← hanswer]
    generalize (layer k).fetch now id s = fetched at hk ⊢
    obtain ⟨e | _ | ⟨value, expiry⟩, t⟩ := fetched
    · exact ih (place + 1) hk
    · exact ih (place + 1) hk
    · exact ⟨hk, rfl⟩

variable {stack : Stack σ V} {ks : List κ}

/-- A read answers with the value of the first layer that has one. -/
theorem read_eq_some_iff (layers : stack.layers = ks.map layer)
    (hfetch : ∀ k s, holds s → Yields holds ((layer k).fetch now id s) (answer k))
    {s : σ} (h : holds s) (value : V) :
    (stack.read now id s).1 = .ok (some value) ↔
      ks.findSome? (fun k => (answer k).join.map Prod.fst) = some value := by
  obtain ⟨-, hhit⟩ := searchFrom_yields hfetch ks 0 h
  rw [← map_value_locate (fun k => (answer k).join) 0, ← hhit, Stack.read, layers]
  generalize searchFrom now id 0 (ks.map layer) s = searched
  obtain ⟨⟨failures, hit?⟩, t⟩ := searched
  rcases hit? with _ | hit
  · cases failures <;> simp
  · simp

/-- Where a layer has the value and those above it do not, a read populates them. -/
theorem read_populates (layers : stack.layers = ks.map layer)
    (hfetch : ∀ k s, holds s → Yields holds ((layer k).fetch now id s) (answer k))
    {above below : List κ} {k : κ} {value : V} {expiry : Int64} (hks : ks = above ++ k :: below)
    (hmiss : ∀ j ∈ above, (answer j).join = none) (hk : answer k = some (some (value, expiry)))
    {s : σ} (h : holds s) :
    ∃ t, holds t ∧ stack.read now id s =
      (.ok (some value), populate now id value expiry (above.map layer) t) := by
  obtain ⟨hholds, hhit⟩ := searchFrom_yields hfetch ks 0 h
  rw [hks, locate_append hmiss, locate, hk] at hhit
  refine ⟨_, hholds, ?_⟩
  rw [Stack.read, layers]
  rw [hks] at hholds ⊢
  generalize searchFrom now id 0 ((above ++ k :: below).map layer) s = searched at hhit ⊢
  obtain ⟨⟨failures, hit?⟩, t⟩ := searched
  obtain rfl : hit? = some ⟨0 + above.length, value, expiry⟩ := hhit
  simp [List.take_left']

end

namespace Layout

variable {σ κ ι : Type} [PolicyKeeper σ] [DecidableEq ι] (L : Layout κ ι) {v : Vault σ ι}
  {sound : σ → Prop} {now : Int64} {s : σ} {m : ι → ExpiringMap Bytes}

/-- What a table answers for an identifier: the record with its expiry, or nothing, or a
failure. -/
def answer (m : ι → ExpiringMap Bytes) (now : Int64) (id : String) (k : κ) :
    Option (Option (Record × Int64)) :=
  (L.cells m now id k).view L.fields id

/-- The cells of a record in a table after it was copied there, where some maps refuse to be
written. -/
def copiedCells (refusal : ι → Option StorageFailure) (now : Int64) (record : Record)
    (expiry : Int64) (m : ι → ExpiringMap Bytes) (k : κ) : Table.Cells :=
  if L.schema.Allows record then
    (L.cells m now record.id k).put now (refusal (L.maps k).index).isSome
      ((L.maps k).refuses refusal) L.fields record expiry
  else L.cells m now record.id k

/-- The record that a table answers with after one was copied there, if it answers. -/
def copied? (refusal : ι → Option StorageFailure) (now : Int64) (record : Record)
    (expiry : Int64) (m : ι → ExpiringMap Bytes) (k : κ) : Option Record :=
  ((L.copiedCells refusal now record expiry m k).view L.fields record.id).join.map Prod.fst

variable {L}

omit [DecidableEq ι] in
/-- A record is answered under its own identifier. -/
theorem id_of_answer {id : String} {k : κ} {r : Record} {expiry : Int64}
    (h : L.answer m now id k = some (some (r, expiry))) : r.id = id := by
  unfold answer Table.Cells.view at h
  obtain ⟨⟨values, soonest⟩, -, hrecord⟩ := Option.map_eq_some_iff.1 h
  dsimp only at hrecord
  split at hrecord
  · obtain ⟨rfl, -⟩ := Prod.mk.inj (Option.some.inj hrecord)
    rfl
  · cases hrecord

section

variable (hv : v.Reliable sound) (refusal : ι → Option StorageFailure)
include hv

theorem fetch_yields (h : v.Has sound now s m) (id : String) (k : κ) :
    Yields (v.Has sound now · m)
      ((L.table (v.refusing refusal).backend k).layer.fetch now id s) (L.answer m now id k) :=
  Table.getWithExpiry_yields hv refusal (L.table_laidOn _ k) h id

/-- A copy of a record changes its cells in one table, and no map of another. -/
theorem store_holds (record : Record) (expiry : Int64) (h : v.Has sound now s m) (k : κ) :
    ∃ m', v.Has sound now
        ((L.table (v.refusing refusal).backend k).layer.store now record.id record expiry s).2 m' ∧
      (∀ i ∉ (L.maps k).places L.fields, m' i = m i) ∧
      Table.Cells.Alike L.fields (L.cells m' now record.id k)
        (L.copiedCells refusal now record expiry m k) := by
  unfold copiedCells
  by_cases hallows : L.schema.Allows record
  · rw [if_pos hallows]
    refine ⟨_, (Table.put_yields hv refusal (L.table_laidOn _ k) (L.separate k) hallows expiry h).2,
      fun i hi => Table.Maps.put_of_notMem refusal now record expiry hi m,
      Table.Maps.cells_put refusal now record expiry (L.separate k) m⟩
  · rw [if_neg hallows]
    have hput : ∃ e, (L.table (v.refusing refusal).backend k).put now record expiry s =
        (.error e, s) := Table.put_not_allowed expiry hallows
    have hstate : ((L.table (v.refusing refusal).backend k).layer.store now record.id record
        expiry s).2 = s := by
      obtain ⟨e, he⟩ := hput
      exact congrArg Prod.snd he
    rw [hstate]
    exact ⟨m, h, fun _ _ => rfl, .refl _ _⟩

/-- **Populating tables** copies the record into each of them, as far as that goes. -/
theorem populate_holds (record : Record) (expiry : Int64) {ks : List κ} (hnodup : ks.Nodup)
    (h : v.Has sound now s m) :
    ∃ m', v.Has sound now (populate now record.id record expiry
        (L.layers (v.refusing refusal).backend ks) s) m' ∧
      (∀ i, (∀ k ∈ ks, i ∉ (L.maps k).places L.fields) → m' i = m i) ∧
      ∀ k ∈ ks, Table.Cells.Alike L.fields (L.cells m' now record.id k)
        (L.copiedCells refusal now record expiry m k) := by
  induction ks generalizing s m with
  | nil => exact ⟨m, h, fun _ _ => rfl, nofun⟩
  | cons k rest ih =>
    obtain ⟨hnot, hrest⟩ := List.nodup_cons.1 hnodup
    obtain ⟨m₁, hm₁, hothers₁, hcells₁⟩ := store_holds hv refusal record expiry h k
    obtain ⟨m', hm', hothers, hcells⟩ := ih hrest hm₁
    refine ⟨m', hm', fun i hi => ?_, fun l hl => ?_⟩
    · rw [hothers i fun l hl => hi l (List.mem_cons_of_mem k hl),
        hothers₁ i (hi k List.mem_cons_self)]
    have hlater : ∀ i ∈ (L.maps k).places L.fields, m' i = m₁ i := fun i hi =>
      hothers i fun j hj => L.apart (fun heq : k = j => hnot (heq ▸ hj)) i hi
    rcases List.mem_cons.1 hl with rfl | hl
    · exact (cells_congr hlater).trans hcells₁
    · have hkl : l ≠ k := fun heq => hnot (heq ▸ hl)
      have hbefore : Table.Cells.Alike L.fields (L.cells m₁ now record.id l)
          (L.cells m now record.id l) :=
        cells_congr fun i hi => hothers₁ i (L.apart hkl i hi)
      refine (hcells l hl).trans ?_
      unfold copiedCells
      split
      · exact hbefore.put now _ _ record expiry
      · exact hbefore

/-- **When a get repeats what the one before it answered.**  The first get finds the record in
some table and copies it into those above, where some maps refuse to be written; then
nothing refuses.  The second get answers with the record again just when the first upper
table that now answers does. -/
theorem get_again {o later : TableStack σ} {ks uppers lowers : List κ} {k : κ} {id : String}
    {r : Record} {expiry : Int64}
    (layers : o.stack.layers = L.layers (v.refusing refusal).backend ks)
    (laterLayers : later.stack.layers = L.layers v.backend ks) (hnodup : ks.Nodup)
    (hks : ks = uppers ++ k :: lowers) (h : v.Has sound now s m)
    (hmiss : ∀ j ∈ uppers, (L.answer m now id j).join = none)
    (hhit : L.answer m now id k = some (some (r, expiry))) :
    ∃ s', o.get now id s = (.ok (some r), s') ∧
      ((later.get now id s').1 = .ok (some r) ↔
        ∀ found ∈ uppers.findSome? (L.copied? refusal now r expiry m), found = r) := by
  obtain rfl := id_of_answer hhit
  obtain ⟨t, ht, hread⟩ := read_populates layers
    (fun k s hs => fetch_yields hv refusal hs r.id k) hks hmiss hhit h
  refine ⟨_, hread, ?_⟩
  rw [hks] at hnodup
  obtain ⟨huppers, hlowers, hdisjoint⟩ := List.nodup_append.1 hnodup
  obtain ⟨m', hm', hothers, hcells⟩ := populate_holds hv refusal r expiry huppers ht
  have hplain : ∀ k s, v.Has sound now s m' → Yields (v.Has sound now · m')
      ((L.table v.backend k).layer.fetch now r.id s) (L.answer m' now r.id k) := by
    intro k s hs
    have hfetch := fetch_yields hv (fun _ => none) (L := L) hs r.id k
    rwa [v.backend_refusing_none] at hfetch
  have hk : L.answer m' now r.id k = some (some (r, expiry)) := by
    rw [← hhit]
    refine Table.Cells.Alike.view (cells_congr fun i hi => hothers i fun j hj => ?_) r.id
    exact L.apart (Ne.symm (hdisjoint j hj k List.mem_cons_self)) i hi
  have hupper : uppers.findSome? (fun j => (L.answer m' now r.id j).join.map Prod.fst) =
      uppers.findSome? (L.copied? refusal now r expiry m) := by
    rw [← List.head?_filterMap, ← List.head?_filterMap]
    refine congrArg List.head? (List.filterMap_congr fun j hj => ?_)
    rw [answer, (hcells j hj).view, copied?]
  have hlater := read_eq_some_iff laterLayers hplain hm' r
  refine hlater.trans ?_
  rw [hks, List.findSome?_append, List.findSome?_cons, hk,
    hupper]
  cases uppers.findSome? (L.copied? refusal now r expiry m) <;> simp

end

/-- Maps in memory on any number of volumes. -/
def memoryVault : Vault Site Site.MapId := Site.vault (fun _ => .memory) fun _ => false

/-- Items have a number and a text. -/
def items : Layout Nat Site.MapId :=
  .named (.ofFields "items" [("num", .integer), ("str_val", .text)] (by decide +kernel)) 0
    (fun number => "volume " ++ toString number) Prod.mk Prod.mk.inj

/-- An item with a number and a text. -/
def item : Record := ⟨"r", .ofList [("num", .integer 42), ("str_val", .text "test")]⟩

/-- The item is in the lower of two tables only. -/
def lowerOnly : Site := ((items.table memoryVault.backend 1).layer.store 0 "r" item 0 (.ofVolumes default [])).2

/-- The upper table's texts refuse to be written. -/
def textRefused (i : Site.MapId) : Option StorageFailure :=
  if i = (0, "items#str_val") then some (.io "broke") else none

/-- What the maps hold then. -/
def lowerOnlyMaps (i : Site.MapId) : ExpiringMap Bytes := memoryVault.contents i lowerOnly

theorem lowerOnly_has :
    memoryVault.Has (Site.Sound (fun _ => .memory) fun _ => false) 0 lowerOnly lowerOnlyMaps := by
  have hempty : memoryVault.Has (Site.Sound (fun _ => .memory) fun _ => false) 0 (.ofVolumes default [])
      fun i => memoryVault.contents i (.ofVolumes default []) :=
    ⟨.ofVolumes fun _ => .new .memory false, fun _ => .refl _ _⟩
  obtain ⟨m', hm', -⟩ := store_holds (L := items) (Site.vault_reliable _ _) (fun _ => none) item 0
    hempty 1
  rw [Vault.backend_refusing_none] at hm'
  exact ⟨hm'.sound, fun _ => .refl _ _⟩

/-- The second of two gets loses the text of the item. -/
theorem get_again_textRefused :
    ∃ s', ((items.stack (memoryVault.refusing textRefused).backend [0, 1] 1 0).get 0 "r" lowerOnly)
        = (.ok (some item), s') ∧
      ((items.stack memoryVault.backend [0, 1] 1 0).get 0 "r" s').1 ≠ .ok (some item) := by
  have layers : (items.stack (memoryVault.refusing textRefused).backend [0, 1] 1 0).stack.layers =
      items.layers (memoryVault.refusing textRefused).backend [0, 1] := rfl
  have laterLayers : (items.stack memoryVault.backend [0, 1] 1 0).stack.layers =
      items.layers memoryVault.backend [0, 1] := rfl
  have hks : [0, 1] = [0] ++ 1 :: [] := rfl
  have hmiss : ∀ j ∈ [0], (items.answer lowerOnlyMaps 0 "r" j).join = none := by decide +kernel
  have hhit : items.answer lowerOnlyMaps 0 "r" 1 = some (some (item, 0)) := by decide +kernel
  obtain ⟨s', hfirst, hsecond⟩ := get_again (Site.vault_reliable _ _) textRefused layers
    laterLayers (by decide) hks lowerOnly_has hmiss hhit
  refine ⟨s', hfirst, fun heq => ?_⟩
  have hfound : [0].findSome? (items.copied? textRefused 0 item 0 lowerOnlyMaps) =
      some ⟨"r", .ofList [("num", .integer 42)]⟩ := by decide +kernel
  exact absurd (hsecond.1 heq _ hfound) (by decide)

end Layout

end LayeredStore
