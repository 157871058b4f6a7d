/-! # Dictionaries in key order

A `Dictionary κ α` holds at most one value per key and keeps its entries in
strictly ascending key order, so a listing of it is canonical: two dictionaries
that answer every lookup alike are equal (`Dictionary.ext_get?`).  Each operation
is described by one lemma on lookups (`get?_insert`, `get?_erase`, `get?_filter`),
and nothing later needs to look inside the entry list.

A `KeySet` is a dictionary without values.
-/
namespace LayeredStore

/-- A finite map whose entries are listed in strictly ascending key order. -/
structure Dictionary (κ α : Type) [Ord κ] where
  /-- The entries, ascending in their keys. -/
  entries : List (κ × α)
  /-- No key occurs twice and every listing is sorted. -/
  ascending : entries.Pairwise (fun a b => compare a.1 b.1 = .lt)

namespace Dictionary

variable {κ α β : Type} [Ord κ]

/-- The dictionary without entries. -/
def empty : Dictionary κ α := ⟨[], .nil⟩

instance : EmptyCollection (Dictionary κ α) := ⟨empty⟩
instance : Inhabited (Dictionary κ α) := ⟨empty⟩

instance [DecidableEq κ] [DecidableEq α] : DecidableEq (Dictionary κ α) := fun d e =>
  decidable_of_iff (d.entries = e.entries)
    ⟨fun h => by cases d; cases e; cases h; rfl, fun h => h ▸ rfl⟩

/-- The entries in key order. -/
def toList (d : Dictionary κ α) : List (κ × α) := d.entries

/-- The keys in ascending order. -/
def keys (d : Dictionary κ α) : List κ := d.entries.map Prod.fst

/-- The values in the order of their keys. -/
def values (d : Dictionary κ α) : List α := d.entries.map Prod.snd

/-- The number of entries. -/
def size (d : Dictionary κ α) : Nat := d.entries.length

/-- Whether there is no entry. -/
def isEmpty (d : Dictionary κ α) : Bool := d.entries.isEmpty

/-- The value stored under `key`. -/
def get? (d : Dictionary κ α) (key : κ) : Option α :=
  (d.entries.find? fun e => compare e.1 key == .eq).map Prod.snd

/-- Whether `key` has a value. -/
def contains (d : Dictionary κ α) (key : κ) : Bool := (d.get? key).isSome

/-- Put `value` at its place in an ascending entry list, over a value that was there. -/
def insertEntry (key : κ) (value : α) : List (κ × α) → List (κ × α)
  | [] => [(key, value)]
  | (k, v) :: rest =>
    match compare key k with
    | .lt => (key, value) :: (k, v) :: rest
    | .eq => (key, value) :: rest
    | .gt => (k, v) :: insertEntry key value rest

theorem mem_insertEntry {key : κ} {value : α} {e : κ × α} {l : List (κ × α)}
    (h : e ∈ insertEntry key value l) : e = (key, value) ∨ e ∈ l := by
  induction l with
  | nil => simpa [insertEntry] using h
  | cons hd tl ih =>
    obtain ⟨k, v⟩ := hd
    rw [insertEntry] at h
    split at h <;> simp only [List.mem_cons] at h ⊢ <;> grind

theorem pairwise_insertEntry [Std.TransOrd κ] [Std.LawfulEqOrd κ] (key : κ) (value : α)
    {l : List (κ × α)} (h : l.Pairwise (fun a b => compare a.1 b.1 = .lt)) :
    (insertEntry key value l).Pairwise (fun a b => compare a.1 b.1 = .lt) := by
  induction l with
  | nil => simp [insertEntry]
  | cons hd tl ih =>
    obtain ⟨k, v⟩ := hd
    obtain ⟨hk, htl⟩ := List.pairwise_cons.1 h
    rw [insertEntry]
    split
    · next hlt =>
      refine List.pairwise_cons.2 ⟨fun e he => ?_, h⟩
      rcases List.mem_cons.1 he with rfl | he
      · exact hlt
      · exact Std.TransCmp.lt_trans hlt (hk e he)
    · next heq =>
      have : key = k := Std.LawfulEqCmp.eq_of_compare heq
      subst this
      exact List.pairwise_cons.2 ⟨hk, htl⟩
    · next hgt =>
      refine List.pairwise_cons.2 ⟨fun e he => ?_, ih htl⟩
      rcases mem_insertEntry he with rfl | he
      · exact Std.OrientedCmp.lt_of_gt hgt
      · exact hk e he

/-- Store `value` under `key`, replacing what was there. -/
def insert [Std.TransOrd κ] [Std.LawfulEqOrd κ] (d : Dictionary κ α) (key : κ) (value : α) :
    Dictionary κ α :=
  ⟨insertEntry key value d.entries, pairwise_insertEntry key value d.ascending⟩

/-- Keep the entries that satisfy `p`. -/
def filter (p : κ → α → Bool) (d : Dictionary κ α) : Dictionary κ α :=
  ⟨d.entries.filter fun e => p e.1 e.2, d.ascending.filter _⟩

/-- Forget `key`. -/
def erase (d : Dictionary κ α) (key : κ) : Dictionary κ α :=
  d.filter fun k _ => compare k key != .eq

/-- Change every value, keeping the keys. -/
def map (f : α → β) (d : Dictionary κ α) : Dictionary κ β :=
  ⟨d.entries.map fun e => (e.1, f e.2), by
    rw [List.pairwise_map]; exact d.ascending⟩

/-- Enter pairs from left to right; of two with one key the later stays. -/
def insertAll [Std.TransOrd κ] [Std.LawfulEqOrd κ] (d : Dictionary κ α) (pairs : List (κ × α)) :
    Dictionary κ α :=
  pairs.foldl (fun acc e => acc.insert e.1 e.2) d

/-- The dictionary of a list of pairs; of two with one key the later stays. -/
def ofList [Std.TransOrd κ] [Std.LawfulEqOrd κ] (pairs : List (κ × α)) : Dictionary κ α :=
  empty.insertAll pairs

/-! ### Lookups -/

theorem ext {d e : Dictionary κ α} (h : d.entries = e.entries) : d = e := by
  cases d; cases e; cases h; rfl

@[simp] theorem get?_empty (key : κ) : (empty : Dictionary κ α).get? key = none := rfl

variable [Std.TransOrd κ] [Std.LawfulEqOrd κ]

omit [Std.TransOrd κ] in
theorem find?_insertEntry (key k : κ) (value : α) (l : List (κ × α)) :
    ((insertEntry key value l).find? fun e => compare e.1 k == .eq).map Prod.snd =
      if compare key k = .eq then some value
      else (l.find? fun e => compare e.1 k == .eq).map Prod.snd := by
  induction l with
  | nil => by_cases hk : compare key k = .eq <;> simp [insertEntry, hk]
  | cons hd tl ih =>
    obtain ⟨a, v⟩ := hd
    rw [insertEntry]
    split
    · by_cases hk : compare key k = .eq <;> simp [hk]
    · next heq =>
      have hka : key = a := Std.LawfulEqCmp.eq_of_compare heq
      subst hka
      by_cases hk : compare key k = .eq <;> simp [hk]
    · next hgt =>
      by_cases hk : compare a k = .eq
      · have hka : a = k := Std.LawfulEqCmp.eq_of_compare hk
        subst hka
        simp [hgt]
      · simpa [List.find?_cons, hk] using ih

@[simp] theorem get?_insert (d : Dictionary κ α) (key k : κ) (value : α) :
    (d.insert key value).get? k = if compare key k = .eq then some value else d.get? k :=
  find?_insertEntry key k value d.entries

theorem get?_insert_self (d : Dictionary κ α) (key : κ) (value : α) :
    (d.insert key value).get? key = some value := by
  simp

theorem get?_insert_of_ne (d : Dictionary κ α) {key k : κ} (h : key ≠ k) (value : α) :
    (d.insert key value).get? k = d.get? k := by
  rw [get?_insert, if_neg]
  exact fun he => h (Std.LawfulEqCmp.eq_of_compare he)

omit [Std.TransOrd κ] in
theorem get?_eq_some_iff (d : Dictionary κ α) (key : κ) (value : α) :
    d.get? key = some value ↔ (key, value) ∈ d.entries := by
  obtain ⟨l, h⟩ := d
  show (l.find? _).map Prod.snd = some value ↔ (key, value) ∈ l
  induction l with
  | nil => simp
  | cons hd tl ih =>
    obtain ⟨a, v⟩ := hd
    obtain ⟨ha, htl⟩ := List.pairwise_cons.1 h
    by_cases hk : compare a key = .eq
    · have : a = key := Std.LawfulEqCmp.eq_of_compare hk
      subst this
      have hnot : (a, value) ∉ tl := fun hw => by
        have hlt : compare a a = .lt := ha _ hw
        simp at hlt
      simp [hnot, eq_comm]
    · have hne : key ≠ a := fun he => hk (he ▸ Std.ReflCmp.compare_self)
      simpa [List.find?_cons, hk, hne] using ih htl

omit [Std.TransOrd κ] in
theorem get?_filter (p : κ → α → Bool) (d : Dictionary κ α) (key : κ) :
    (d.filter p).get? key = (d.get? key).filter (p key) := by
  apply Option.ext
  intro v
  rw [get?_eq_some_iff, Option.filter_eq_some_iff, get?_eq_some_iff]
  simp [filter]

omit [Std.TransOrd κ] in
theorem get?_erase (d : Dictionary κ α) (key k : κ) :
    (d.erase key).get? k = if compare k key = .eq then none else d.get? k := by
  rw [erase, get?_filter]
  by_cases h : compare k key = .eq <;> cases hd : d.get? k <;> simp [h]

omit [Std.TransOrd κ] [Std.LawfulEqOrd κ] in
theorem get?_map (f : α → β) (d : Dictionary κ α) (key : κ) :
    (d.map f).get? key = (d.get? key).map f := by
  obtain ⟨l, h⟩ := d
  show ((l.map fun e => (e.1, f e.2)).find? _).map Prod.snd = ((l.find? _).map Prod.snd).map f
  rw [List.find?_map]
  simp only [Option.map_map]
  rfl

/-- **Lookups decide equality.** Two dictionaries that answer every lookup alike
have the same listing. -/
theorem ext_get? {d e : Dictionary κ α} (h : ∀ k, d.get? k = e.get? k) : d = e := by
  have hmem : ∀ x : κ × α, x ∈ d.entries ↔ x ∈ e.entries := fun x => by
    rw [← get?_eq_some_iff d x.1 x.2, ← get?_eq_some_iff e x.1 x.2, h]
  obtain ⟨l, hl⟩ := d
  obtain ⟨m, hm⟩ := e
  refine ext ?_
  show l = m
  replace hmem : ∀ x, x ∈ l ↔ x ∈ m := hmem
  clear h
  induction l generalizing m with
  | nil =>
    cases m with
    | nil => rfl
    | cons y ys => exact absurd ((hmem y).2 (List.mem_cons_self ..)) (by simp)
  | cons x xs ih =>
    cases m with
    | nil => exact absurd ((hmem x).1 (List.mem_cons_self ..)) (by simp)
    | cons y ys =>
      obtain ⟨hx, hxs⟩ := List.pairwise_cons.1 hl
      obtain ⟨hy, hys⟩ := List.pairwise_cons.1 hm
      have irrefl : ∀ a : κ, compare a a ≠ .lt := fun a => by simp
      have hxy : x = y := by
        rcases List.mem_cons.1 ((hmem x).1 (List.mem_cons_self ..)) with h | h
        · exact h
        · rcases List.mem_cons.1 ((hmem y).2 (List.mem_cons_self ..)) with h' | h'
          · exact h'.symm
          · exact absurd (Std.TransCmp.lt_trans (hx _ h') (hy _ h)) (irrefl _)
      subst hxy
      refine congrArg (x :: ·) (ih hxs ys hys fun z => ?_)
      constructor
      · intro hz
        rcases List.mem_cons.1 ((hmem z).1 (List.mem_cons_of_mem _ hz)) with rfl | h
        · exact absurd (hx _ hz) (irrefl _)
        · exact h
      · intro hz
        rcases List.mem_cons.1 ((hmem z).2 (List.mem_cons_of_mem _ hz)) with rfl | h
        · exact absurd (hy _ hz) (irrefl _)
        · exact h

/-! ### Keys of listings -/

omit [Std.TransOrd κ] in
theorem mem_keys_iff (d : Dictionary κ α) (key : κ) :
    key ∈ d.keys ↔ ∃ value, d.get? key = some value := by
  simp only [keys, List.mem_map, Prod.exists, exists_and_right, exists_eq_right,
    get?_eq_some_iff]

omit [Std.LawfulEqOrd κ] in
theorem nodup_keys (d : Dictionary κ α) : d.keys.Nodup := by
  refine List.pairwise_map.2 (d.ascending.imp fun {a b} h he => ?_)
  rw [he] at h
  simp at h

theorem insertAll_cons (d : Dictionary κ α) (e : κ × α) (pairs : List (κ × α)) :
    d.insertAll (e :: pairs) = (d.insert e.1 e.2).insertAll pairs := rfl

theorem get?_insertAll_of_notMem (d : Dictionary κ α) {key : κ} {pairs : List (κ × α)}
    (h : key ∉ pairs.map Prod.fst) : (d.insertAll pairs).get? key = d.get? key := by
  induction pairs generalizing d with
  | nil => rfl
  | cons e pairs ih =>
    obtain ⟨hne, hrest⟩ := not_or.1 (mt List.mem_cons.2 h)
    rw [insertAll_cons, ih _ hrest, get?_insert_of_ne _ (Ne.symm hne)]

/-- Of pairs with different keys every one is found. -/
theorem get?_insertAll_of_mem (d : Dictionary κ α) {key : κ} {value : α} {pairs : List (κ × α)}
    (hd : (pairs.map Prod.fst).Nodup) (h : (key, value) ∈ pairs) :
    (d.insertAll pairs).get? key = some value := by
  induction pairs generalizing d with
  | nil => cases h
  | cons e pairs ih =>
    obtain ⟨hnot, hrest⟩ := List.nodup_cons.1 hd
    rw [insertAll_cons]
    rcases List.mem_cons.1 h with rfl | h
    · rw [get?_insertAll_of_notMem _ hnot, get?_insert_self]
    · exact ih _ hrest h

theorem get?_ofList_of_notMem {key : κ} {pairs : List (κ × α)} (h : key ∉ pairs.map Prod.fst) :
    (ofList pairs).get? key = none :=
  get?_insertAll_of_notMem _ h

theorem get?_ofList_of_mem {key : κ} {value : α} {pairs : List (κ × α)}
    (hd : (pairs.map Prod.fst).Nodup) (h : (key, value) ∈ pairs) :
    (ofList pairs).get? key = some value :=
  get?_insertAll_of_mem _ hd h

/-- Whatever order pairs with different keys are entered in, their dictionary is told by
what is listed. -/
theorem ofList_eq {pairs : List (κ × α)} {d : Dictionary κ α}
    (hd : (pairs.map Prod.fst).Nodup)
    (h : ∀ key value, (key, value) ∈ pairs ↔ d.get? key = some value) : ofList pairs = d := by
  refine ext_get? fun key => ?_
  cases hk : d.get? key with
  | some value => exact get?_ofList_of_mem hd ((h key value).2 hk)
  | none =>
    refine get?_ofList_of_notMem fun hmem => ?_
    obtain ⟨e, he, rfl⟩ := List.mem_map.1 hmem
    rw [(h e.1 e.2).1 he] at hk
    cases hk

theorem contains_insertAll (d : Dictionary κ α) (key : κ) (pairs : List (κ × α)) :
    (d.insertAll pairs).contains key = true ↔
      d.contains key = true ∨ key ∈ pairs.map Prod.fst := by
  induction pairs generalizing d with
  | nil => simp [insertAll]
  | cons e pairs ih =>
    rw [insertAll_cons, ih]
    simp only [contains, get?_insert, List.map_cons, List.mem_cons]
    by_cases h : compare e.1 key = .eq
    · simp [(Std.LawfulEqCmp.eq_of_compare h).symm]
    · have hne : key ≠ e.1 := fun he => h (he ▸ Std.ReflCmp.compare_self)
      simp [h, hne]

omit [Std.TransOrd κ] in
/-- Forgetting keys one after another. -/
theorem get?_foldl_erase [DecidableEq κ] (d : Dictionary κ α) (key : κ) (keys : List κ) :
    (keys.foldl erase d).get? key = if key ∈ keys then none else d.get? key := by
  induction keys generalizing d with
  | nil => simp
  | cons k keys ih =>
    rw [List.foldl_cons, ih, get?_erase]
    by_cases hk : compare k key = .eq
    · simp [(Std.LawfulEqCmp.eq_of_compare hk).symm]
    · have hne : key ≠ k := fun he => hk (he ▸ Std.ReflCmp.compare_self)
      simp [hne]

end Dictionary

/-- A finite set of texts, listed in ascending order. -/
abbrev KeySet := Dictionary String Unit

namespace KeySet

/-- The set of the texts of a list. -/
def ofKeys (keys : List String) : KeySet := Dictionary.ofList (keys.map (·, ()))

/-- The texts that are in one of two sets. -/
def union (a b : KeySet) : KeySet := a.insertAll b.toList

@[simp] theorem contains_ofKeys (keys : List String) (key : String) :
    Dictionary.contains (ofKeys keys) key = true ↔ key ∈ keys := by
  rw [ofKeys, Dictionary.ofList, Dictionary.contains_insertAll]
  simp [Dictionary.contains]

@[simp] theorem contains_union (a b : KeySet) (key : String) :
    Dictionary.contains (a.union b) key = true ↔
      Dictionary.contains a key = true ∨ Dictionary.contains b key = true := by
  have h := Dictionary.mem_keys_iff b key
  rw [union, Dictionary.contains_insertAll]
  simp only [Dictionary.contains, Option.isSome_iff_exists] at h ⊢
  exact or_congr_right h

end KeySet

end LayeredStore
