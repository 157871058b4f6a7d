import LayeredStore.Proofs.AdaptiveSorting
import LayeredStore.Proofs.ValueOrder
import LayeredStore.Query

/-! # Sorted results and their pages

A sort order compares records term by term, and a term compares what two records hold under its
field, a missing value being least, and turned round if it is descending.  Each of these steps keeps
what sorting asks of a comparison (`OrdersTotally.withMissing`, `OrdersTotally.swap`,
`OrdersTotally.thenBy`).  Values of one type are ordered totally, as an integer is straddled by
other values only; so on records that hold values of one type under each field
(`SortOrder.OneTyped`) every order is total, and sorting arranges them (`SortOrder.sort_arranged`).

Pages only depend on the list that they are cut out of: the item at a place of a page is the one as
far behind the offset (`getElem?_window`), and pages one after another make up the beginning of the
list (`windows_join`).
-/
namespace LayeredStore

/-! ### Comparisons made of comparisons -/

/-- Compare what may be missing, a missing value being least. -/
def compareMissing {α : Type} (cmp : α → α → Ordering) : Option α → Option α → Ordering
  | some x, some y => cmp x y
  | none, some _ => .lt
  | some _, none => .gt
  | none, none => .eq

theorem SortTerm.compareField_eq (field : String) (a b : Record) :
    compareField field a b =
      compareMissing Value.sortCompare (a.field? field) (b.field? field) := by
  unfold compareField
  cases a.field? field <;> cases b.field? field <;> rfl

namespace OrdersTotally

section

variable {α : Type} {cmp rest : α → α → Ordering} {s : Set α}

theorem eq_trans (h : OrdersTotally cmp s) {a b c : α} (ha : a ∈ s) (hb : b ∈ s) (hc : c ∈ s)
    (hab : cmp a b = .eq) (hbc : cmp b c = .eq) : cmp a c = .eq := by
  have hup := (h.chained a ha b hb c hc (by simp [hab]) (by simp [hbc])).1
  have hback := (h.chained c hc b hb a ha (by simp [h.swapped b hb c hc, hbc])
    (by simp [h.swapped a ha b hb, hab])).1
  rw [h.swapped a ha c hc] at hback
  cases hac : cmp a c with
  | lt => exact absurd (by rw [hac]; rfl) hback
  | eq => rfl
  | gt => exact absurd hac hup

theorem undecided : OrdersTotally (fun _ _ : α => .eq) s where
  swapped _ _ _ _ := rfl
  chained _ _ _ _ _ _ _ _ := ⟨nofun, fun h => h.elim nofun nofun⟩

/-- Turning a comparison round goes up where it went down. -/
theorem swap (h : OrdersTotally cmp s) : OrdersTotally (fun a b => (cmp a b).swap) s where
  swapped a ha b hb := congrArg Ordering.swap (h.swapped a ha b hb)
  chained a ha b hb c hc := by
    rw [← h.swapped a ha b hb, ← h.swapped b hb c hc, ← h.swapped a ha c hc]
    intro hba hcb
    obtain ⟨hca, hlt⟩ := h.chained c hc b hb a ha hcb hba
    exact ⟨hca, fun hor => hlt hor.symm⟩

/-- Where one comparison leaves records undecided, another may decide. -/
theorem thenBy (h : OrdersTotally cmp s) (hrest : OrdersTotally rest s) :
    OrdersTotally (fun a b => (cmp a b).then (rest a b)) s where
  swapped a ha b hb := by
    rw [h.swapped a ha b hb, hrest.swapped a ha b hb, Ordering.swap_then]
  chained a ha b hb c hc hab hbc := by
    have hup := h.chained a ha b hb c hc
    have heq := h.eq_trans ha hb hc
    have hrestup := hrest.chained a ha b hb c hc
    -- Twice undecided is undecided, so what comes next decides just where nothing has decided yet.
    generalize cmp a b = ab at *
    generalize cmp b c = bc at *
    generalize cmp a c = ac at *
    cases ab <;> cases bc <;> cases ac <;> simp_all

end

section

variable {α β : Type} {cmp : α → α → Ordering} {s : Set α}

/-- Comparing what is seen of the items of another set. -/
theorem onView (h : OrdersTotally cmp s) (view : β → α) {u : Set β} (hu : ∀ b ∈ u, view b ∈ s) :
    OrdersTotally (fun a b => cmp (view a) (view b)) u where
  swapped a ha b hb := h.swapped _ (hu a ha) _ (hu b hb)
  chained a ha b hb c hc := h.chained _ (hu a ha) _ (hu b hb) _ (hu c hc)

/-- Values that may be missing are ordered, a missing one being least. -/
theorem withMissing (h : OrdersTotally cmp s) :
    OrdersTotally (compareMissing cmp) {x? | ∀ x ∈ x?, x ∈ s} where
  swapped x? hx y? hy := by
    cases x? <;> cases y?
    case some.some x y => exact h.swapped x (hx x rfl) y (hy y rfl)
    all_goals rfl
  chained x? hx y? hy z? hz := by
    cases x? <;> cases y? <;> cases z?
    case some.some.some x y z => exact h.chained x (hx x rfl) y (hy y rfl) z (hz z rfl)
    all_goals simp [compareMissing]

/-- A total order is what sorting asks for. -/
theorem consistent (h : OrdersTotally cmp s) :
    Sorting.Consistent (fun a b => cmp a b == .lt) s where
  asymm x hx y hy hlt := by
    rw [beq_iff_eq] at hlt
    rw [h.swapped x hx y hy, hlt]
    rfl
  through x hx y hy z hz hxy hyz := by
    have hnot : ∀ a ∈ s, ∀ b ∈ s, (cmp a b == .lt) = false ↔ cmp b a ≠ .gt := fun a ha b hb => by
      rw [h.swapped a ha b hb]
      cases cmp a b <;> decide
    rw [hnot x hx y hy] at hxy
    rw [hnot y hy z hz] at hyz
    rw [hnot x hx z hz]
    exact (h.chained z hz y hy x hx hyz hxy).1

theorem tied_eq (h : OrdersTotally cmp s) {a b : α} (ha : a ∈ s) (hb : b ∈ s) :
    Sorting.tied (fun a b => cmp a b == .lt) a b = (cmp a b == .eq) := by
  rw [Sorting.tied, h.swapped a ha b hb]
  cases cmp a b <;> rfl

end

end OrdersTotally

/-- **Values of one type are ordered totally.** -/
theorem Value.ordersTotally_of_type {s : Set Value} (h : ∀ x ∈ s, ∀ y ∈ s, x.type? = y.type?) :
    OrdersTotally sortCompare s := by
  refine ordersTotally_of_free fun t ht i j hi _ hstraddles => ?_
  have htype : t.type? = some .integer := h t ht (integer i) hi
  cases t with
  | integer n => exact hstraddles.other n rfl
  | _ => cases htype

/-! ### Orders of records -/

namespace SortOrder

/-- What the records hold under each field of the order is of one type, lists counting as one. -/
def OneTyped (o : SortOrder) (records : List Record) : Prop :=
  ∀ t ∈ o.terms, ∀ a ∈ records, ∀ b ∈ records, ∀ x ∈ a.field? t.field, ∀ y ∈ b.field? t.field,
    x.type? = y.type?

instance (o : SortOrder) (records : List Record) : Decidable (o.OneTyped records) :=
  inferInstanceAs (Decidable (∀ t ∈ o.terms, ∀ a ∈ records, ∀ b ∈ records,
    ∀ x ∈ a.field? t.field, ∀ y ∈ b.field? t.field, x.type? = y.type?))

/-- A record comes before another one as missing values have it: where the terms before leave them
undecided, the one without the field of a term is first, or last if the term is descending. -/
def PlacesMissing (o : SortOrder) (a b : Record) : Prop :=
  ∀ before t after, o.terms = before ++ t :: after → (⟨before⟩ : SortOrder).compare a b = .eq →
    if t.descending then a.field? t.field = none → b.field? t.field = none
    else b.field? t.field = none → a.field? t.field = none

end SortOrder

section

variable {o : SortOrder} {records : List Record}

theorem SortTerm.compare_ordersTotally (t : SortTerm)
    (h : ∀ a ∈ records, ∀ b ∈ records, ∀ x ∈ a.field? t.field, ∀ y ∈ b.field? t.field,
      x.type? = y.type?) : OrdersTotally t.compare {r | r ∈ records} := by
  have hvalues : OrdersTotally Value.sortCompare {x | ∃ r ∈ records, x ∈ r.field? t.field} :=
    Value.ordersTotally_of_type fun x ⟨a, ha, hx⟩ y ⟨b, hb, hy⟩ => h a ha b hb x hx y hy
  have hfield : OrdersTotally (SortTerm.compareField t.field) {r | r ∈ records} := by
    rw [funext fun a => funext (SortTerm.compareField_eq t.field a)]
    exact hvalues.withMissing.onView (Record.field? · t.field) fun r hr x hx => ⟨r, hr, hx⟩
  cases hdirection : t.descending with
  | false =>
    have hup : t.compare = SortTerm.compareField t.field := by
      funext a b
      rw [SortTerm.compare, hdirection, if_neg Bool.false_ne_true]
    rwa [hup]
  | true =>
    have hdown : t.compare = fun a b => (SortTerm.compareField t.field a b).swap := by
      funext a b
      rw [SortTerm.compare, hdirection, if_pos rfl]
    rw [hdown]
    exact hfield.swap

namespace SortOrder

theorem compare_ordersTotally (h : o.OneTyped records) :
    OrdersTotally o.compare {r | r ∈ records} := by
  obtain ⟨terms⟩ := o
  induction terms with
  | nil => exact .undecided
  | cons t terms ih =>
    obtain ⟨ht, hterms⟩ := List.forall_mem_cons.1 h
    exact (t.compare_ordersTotally ht).thenBy (ih hterms)

/-- **Records of one type under each field are arranged**; sorting them does not fail. -/
theorem sort_arranged (h : o.OneTyped records) :
    o.sort? records = some (o.sort records) ∧
      Sorting.Arranged o.less {r | r ∈ records} records (o.sort records) := by
  obtain ⟨out, hout, harranged⟩ :=
    Sorting.sort_arranges (compare_ordersTotally h).consistent records fun _ hr => hr
  have hsort : o.sort? records = some out := hout
  rw [sort, hsort, Option.getD_some]
  exact ⟨rfl, harranged⟩

theorem compare_append (before after : List SortTerm) (a b : Record) :
    (⟨before ++ after⟩ : SortOrder).compare a b =
      ((⟨before⟩ : SortOrder).compare a b).then ((⟨after⟩ : SortOrder).compare a b) := by
  induction before with
  | nil => rfl
  | cons t before ih => rw [List.cons_append, compare_cons, compare_cons, ih, Ordering.then_assoc]

theorem placesMissing_of_compare {a b : Record} (h : o.compare a b ≠ .gt) :
    o.PlacesMissing a b := by
  intro before t after hterms hbefore
  have hterm : t.compare a b ≠ .gt := by
    intro hgt
    obtain ⟨terms⟩ := o
    obtain rfl : terms = before ++ t :: after := hterms
    rw [compare_append, hbefore, compare_cons, hgt] at h
    exact h rfl
  unfold SortTerm.compare SortTerm.compareField at hterm
  cases hx : a.field? t.field <;> cases hy : b.field? t.field <;> cases hd : t.descending <;>
    simp_all

end SortOrder

end

/-! ### Pages -/

section

variable {α : Type}

theorem getElem?_window (items : List α) (offset limit i : Nat) :
    (window items offset limit)[i]? =
      if limit = 0 ∨ i < limit then items[offset + i]? else none := by
  unfold window
  by_cases hlimit : limit = 0
  · rw [if_pos hlimit, if_pos (.inl hlimit), List.getElem?_drop]
  · rw [if_neg hlimit, List.getElem?_take, List.getElem?_drop]
    simp [hlimit]

/-- Pages one after another make up the beginning of the list. -/
theorem windows_join {limit : Nat} (hlimit : 0 < limit) (items : List α) (count : Nat) :
    ((List.range count).flatMap fun k => window items (k * limit) limit) =
      items.take (count * limit) := by
  induction count with
  | zero => rw [Nat.zero_mul, List.take_zero]; rfl
  | succ count ih =>
    rw [List.range_succ, List.flatMap_append, ih, List.flatMap_singleton, window,
      if_neg (Nat.ne_of_gt hlimit), Nat.succ_mul, List.take_add]

end

namespace Query

variable {o : SortOrder} {records : List Record} {q : Query}

theorem finish_eq_window (hq : q.order? = some o) :
    q.finish records = window (o.sort records) q.offset q.limit := by
  rw [finish, hq]

/-- **Results are sorted, and pages are cut out of them.**  On records with values of one type under
each field, sorting has a result, which has every record once, in order, with missing values where
they belong and equal ones as they were; a page has the results from its offset on; and pages one after another make
up the results. -/
theorem finish_sorted (h : o.OneTyped records) :
    o.sort? records = some (o.sort records) ∧
    (o.sort records).Perm records ∧
    ((o.sort records).Pairwise fun a b => o.compare a b ≠ .gt ∧ o.PlacesMissing a b) ∧
    (∀ r ∈ records, ((o.sort records).filter fun x => o.compare r x == .eq) =
      records.filter fun x => o.compare r x == .eq) ∧
    ∀ q : Query, q.order? = some o →
      (∀ i : Nat, (q.finish records)[i]? =
        if q.limit = 0 ∨ i < q.limit then (o.sort records)[q.offset + i]? else none) ∧
      ∀ limit count, 0 < limit → records.length ≤ count * limit →
        ((List.range count).flatMap fun k => (q.page (k * limit) limit).finish records) =
          (q.page 0 0).finish records ∧
        ((List.range count).flatMap fun k => (q.page (k * limit) limit).finish records).Perm
          records := by
  have htotal := SortOrder.compare_ordersTotally h
  obtain ⟨hsome, harranged⟩ := SortOrder.sort_arranged h
  refine ⟨hsome, harranged.perm, ?_, fun r hr => ?_, fun q hq => ⟨fun i => ?_, ?_⟩⟩
  case refine_1 =>
    refine harranged.ordered.imp_of_mem fun {a b} ha hb hba => ?_
    have hle : o.compare a b ≠ .gt := by
      rw [htotal.swapped b (harranged.out_within b hb) a (harranged.out_within a ha)]
      intro hgt
      rw [Ordering.swap_eq_gt] at hgt
      rw [SortOrder.less, hgt] at hba
      cases hba
    exact ⟨hle, SortOrder.placesMissing_of_compare hle⟩
  case refine_2 =>
    have htied : ∀ x ∈ records, Sorting.tied o.less r x = (o.compare r x == .eq) := fun x hx =>
      htotal.tied_eq hr hx
    rw [← List.filter_congr fun x hx => htied x (harranged.out_within x hx),
      ← List.filter_congr htied]
    exact harranged.kept r hr
  case refine_3 => rw [finish_eq_window hq, getElem?_window]
  case refine_4 =>
    intro limit count hlimit hcount
    have hpages : ((List.range count).flatMap fun k =>
        (q.page (k * limit) limit).finish records) = o.sort records := by
      have hpage : ∀ k, (q.page (k * limit) limit).finish records =
          window (o.sort records) (k * limit) limit := fun k => finish_eq_window hq
      simp only [hpage]
      rw [windows_join hlimit, List.take_of_length_le (harranged.perm.length_eq ▸ hcount)]
    rw [hpages, finish_eq_window (q := q.page 0 0) hq]
    exact ⟨rfl, harranged.perm⟩

/-- Four records; one has no number, two have the same. -/
def numbered : List Record :=
  [.ofFields "a" [("num", .integer 1)], .blank "b", .ofFields "c" [("num", .integer 2)],
    .ofFields "d" [("num", .integer 1)]]

/-- The greatest number first. -/
def byNumber : SortOrder := ⟨[.on "num" true]⟩

/-- Two pages have the records with the same number as they were, and the one without at last. -/
theorem finish_sorted_numbered :
    byNumber.OneTyped numbered ∧
      ((List.range 2).flatMap fun k =>
        (({ all with order? := some byNumber }).page (k * 3) 3).finish numbered).map Record.id =
          ["c", "a", "d", "b"] := by
  have hone : byNumber.OneTyped numbered := by decide +kernel
  obtain ⟨-, -, -, -, hfinish⟩ := finish_sorted hone
  refine ⟨hone, ?_⟩
  rw [((hfinish { all with order? := some byNumber } rfl).2 3 2 (by decide) (by decide)).1]
  decide +kernel

end Query

end LayeredStore
