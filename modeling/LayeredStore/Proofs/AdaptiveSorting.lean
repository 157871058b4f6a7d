import LayeredStore.Proofs.StableSorting
import LayeredStore.Sorting.Long
import Mathlib.Data.List.Basic

/-! # Stable sorting of long lists

A run stands for a stretch of the list: it is an arrangement of it, or the stretch as it was, to be
sorted by what arranges everything (`Run.Covers`).  Joining neighbours covers both stretches
(`Run.Covers.join`), so whichever neighbours are joined first, the run that is left in the end
covers the list (`joinRuns_covers`): the heights only decide how fast that is.

Dividing around a pivot keeps what is tied on one side (`Arranged.divided`), and the item it goes
by is on the side where the test has it (`divide_eq`).  From these follows that every list of items
on which the test is consistent is arranged, and that no sort of it is without a result
(`sort_arranges`).
-/
namespace LayeredStore.Sorting

variable {α : Type} {less : α → α → Bool} {s : Set α}

/-! ### Natural runs -/

section

variable (hc : Consistent less s)
include hc

/-- A list in strictly reverse order is arranged by turning it round. -/
theorem Arranged.reverse {items : List α} (hitems : ∀ x ∈ items, x ∈ s)
    (h : items.Pairwise fun x y => less y x = true) : Arranged less s items items.reverse where
  within := hitems
  perm := List.reverse_perm items
  ordered := List.pairwise_reverse.2 (h.imp_of_mem fun {x y} hx hy hyx =>
    hc.asymm y (hitems y hy) x (hitems x hx) hyx)
  kept z hz := by
    -- No two items are tied, so at most one is tied with a given item.
    have hstrict := h.filter (tied less z)
    have hmem : ∀ x ∈ items.filter (tied less z), x ∈ s ∧ tied less z x = true := fun x hx =>
      ⟨hitems x (List.mem_filter.1 hx).1, (List.mem_filter.1 hx).2⟩
    rw [List.filter_reverse]
    generalize items.filter (tied less z) = ties at hstrict hmem
    rcases ties with _ | ⟨x, _ | ⟨y, rest⟩⟩
    · rfl
    · rfl
    · obtain ⟨hx, hxz⟩ := hmem x List.mem_cons_self
      obtain ⟨hy, hyz⟩ := hmem y (List.mem_cons_of_mem x List.mem_cons_self)
      have hnot := hc.not_less_of_tied hy hx hz hyz hxz
      have hyx := List.rel_of_pairwise_cons hstrict List.mem_cons_self
      rw [hnot] at hyx
      cases hyx

omit hc in
/-- The items that continue a run are each related to all before. -/
theorem continuing_pairwise {continues : α → α → Bool}
    (htrans : ∀ x ∈ s, ∀ y ∈ s, ∀ z ∈ s, continues x y = true → continues y z = true →
      continues x z = true) {x : α} {rest : List α} (hitems : ∀ y ∈ x :: rest, y ∈ s) :
    (x :: rest.take (continuing continues x rest)).Pairwise fun x y => continues x y = true := by
  induction rest generalizing x with
  | nil => exact List.pairwise_singleton _ _
  | cons y rest ih =>
    obtain ⟨hx, hyrest⟩ := List.forall_mem_cons.1 hitems
    rw [continuing]
    split
    · next hxy =>
      rw [List.take_succ_cons]
      have htail := ih hyrest
      refine List.pairwise_cons.2 ⟨List.forall_mem_cons.2 ⟨hxy, fun z hz => ?_⟩, htail⟩
      exact htrans x hx y (hyrest y List.mem_cons_self) z
        (hyrest z (List.mem_cons_of_mem y (List.mem_of_mem_take hz))) hxy
        (List.rel_of_pairwise_cons htail hz)
    · exact List.pairwise_singleton _ _

omit hc in
/-- A run that continues from its first two items. -/
theorem run_pairwise {continues : α → α → Bool}
    (htrans : ∀ x ∈ s, ∀ y ∈ s, ∀ z ∈ s, continues x y = true → continues y z = true →
      continues x z = true) {a b : α} {rest : List α} (hitems : ∀ x ∈ a :: b :: rest, x ∈ s)
    (h : continues a b = true) :
    (a :: b :: rest.take (continuing continues b rest)).Pairwise
      fun x y => continues x y = true := by
  have hrun := continuing_pairwise htrans hitems
  rwa [continuing, if_pos h, List.take_succ_cons] at hrun

/-- The natural run of a list arranges the stretch that it takes. -/
theorem natural_arranged {items : List α} (hitems : ∀ x ∈ items, x ∈ s) :
    ∃ stretch, items = stretch ++ (natural less items).2 ∧
      Arranged less s stretch (natural less items).1 := by
  unfold natural
  split
  · next a b rest =>
    have hstretch : ∀ n, ∀ x ∈ a :: b :: rest.take n, x ∈ s := fun n x hx =>
      hitems x ((((List.take_sublist n rest).cons_cons b).cons_cons a).subset hx)
    split
    · next hba =>
      have htrans : ∀ x ∈ s, ∀ y ∈ s, ∀ z ∈ s, less y x = true → less z y = true →
          less z x = true := fun x hx y hy z hz hyx hzy =>
        hc.less_of_less_of_not hz hy hx hzy (hc.asymm y hy x hx hyx)
      exact ⟨a :: b :: rest.take _, by simp,
        .reverse hc (hstretch _) (run_pairwise htrans hitems hba)⟩
    · next hba =>
      have htrans : ∀ x ∈ s, ∀ y ∈ s, ∀ z ∈ s, (!less y x) = true → (!less z y) = true →
          (!less z x) = true := by
        simp only [Bool.not_eq_true']
        exact fun x hx y hy z hz hyx hzy => hc.through z hz y hy x hx hzy hyx
      have hordered := run_pairwise htrans hitems (by simpa using hba)
      exact ⟨a :: b :: rest.take _, by simp,
        .of_ordered (hstretch _) (hordered.imp fun h => by simpa using h)⟩
  · next hfew =>
    refine ⟨items, (List.append_nil items).symm, .of_ordered hitems ?_⟩
    rcases items with _ | ⟨x, _ | ⟨y, rest⟩⟩
    · exact .nil
    · exact List.pairwise_singleton _ _
    · exact absurd rfl (hfew x y rest)

end

/-! ### Runs and what they stand for -/

/-- A run stands for a stretch of a list: it is an arrangement of it, or the stretch itself, which
`arrange` will arrange. -/
inductive Run.Covers (less : α → α → Bool) (s : Set α) (arrange : List α → Option (List α)) :
    List α → Run α → Prop
  | sorted {stretch items : List α} : Arranged less s stretch items →
      Covers less s arrange stretch ⟨items, true⟩
  | pending {stretch : List α} : (∀ x ∈ stretch, x ∈ s) → Arranges less s arrange →
      Covers less s arrange stretch ⟨stretch, false⟩

/-- Runs that stand for the stretches of a list, one after another. -/
inductive CoverAll (less : α → α → Bool) (s : Set α) (arrange : List α → Option (List α)) :
    List α → List (Run α) → Prop
  | nil : CoverAll less s arrange [] []
  | cons {a b : List α} {run : Run α} {rest : List (Run α)} : run.Covers less s arrange a →
      CoverAll less s arrange b rest → CoverAll less s arrange (a ++ b) (run :: rest)

/-- Runs that stand for the stretches of a list, the last one first, with their heights. -/
inductive CoverBefore (less : α → α → Bool) (s : Set α) (arrange : List α → Option (List α)) :
    List α → List (Run α × Nat) → Prop
  | nil : CoverBefore less s arrange [] []
  | cons {a b : List α} {before : List (Run α × Nat)} {run : Run α} {height : Nat} :
      CoverBefore less s arrange a before → run.Covers less s arrange b →
      CoverBefore less s arrange (a ++ b) ((run, height) :: before)

section

variable {arrange : List α → Option (List α)} {a b c : List α} {run next : Run α}

theorem Run.Covers.settled (h : run.Covers less s arrange a) :
    ∃ out, run.settled arrange = some out ∧ Arranged less s a out := by
  cases h with
  | sorted harranged => exact ⟨_, rfl, harranged⟩
  | pending hwithin harranges => exact harranges a hwithin

variable (hc : Consistent less s)
include hc

theorem Arranged.mergeNear {l r : List α} (ha : Arranged less s a l) (hb : Arranged less s b r) :
    Arranged less s (a ++ b) (mergeNear less l r) := by
  unfold Sorting.mergeNear
  split
  · exact ha.mergeFront hc hb
  · exact ha.mergeBack hc hb

/-- **Two neighbours joined** stand for both stretches. -/
theorem Run.Covers.join (ha : run.Covers less s arrange a) (hb : next.Covers less s arrange b) :
    ∃ joined, run.join less arrange next = some joined ∧
      joined.Covers less s arrange (a ++ b) := by
  obtain ⟨left, hleft, haleft⟩ := ha.settled
  obtain ⟨right, hright, hbright⟩ := hb.settled
  rw [Run.join, hleft, hright]
  split
  · exact ⟨_, rfl, .sorted (haleft.mergeNear hc hbright)⟩
  · next hunsorted =>
    -- Neither is sorted, so both are stretches as they were.
    cases ha with
    | sorted => simp at hunsorted
    | pending hawithin harranges =>
      cases hb with
      | sorted => simp at hunsorted
      | pending hbwithin =>
        exact ⟨_, rfl, .pending (List.forall_mem_append.2 ⟨hawithin, hbwithin⟩) harranges⟩

theorem joinBelow_covers (h : Nat) {before : List (Run α × Nat)}
    (hbefore : CoverBefore less s arrange a before) (hrun : run.Covers less s arrange b) :
    ∃ before' run' a' b', joinBelow less arrange h before run = some (before', run') ∧
      a ++ b = a' ++ b' ∧ CoverBefore less s arrange a' before' ∧
      run'.Covers less s arrange b' := by
  induction hbefore generalizing b run with
  | nil => exact ⟨[], run, [], b, rfl, rfl, .nil, hrun⟩
  | @cons a₁ b₁ before left k hbefore hleft ih =>
    rw [joinBelow]
    split
    · obtain ⟨joined, hjoin, hjoined⟩ := hleft.join hc hrun
      rw [hjoin, List.append_assoc]
      exact ih hjoined
    · exact ⟨(left, k) :: before, run, a₁ ++ b₁, b, rfl, rfl, .cons hbefore hleft, hrun⟩

theorem joinAll_covers {before : List (Run α × Nat)} (hbefore : CoverBefore less s arrange a before)
    (hrun : run.Covers less s arrange b) :
    ∃ last, joinAll less arrange before run = some last ∧
      last.Covers less s arrange (a ++ b) := by
  induction hbefore generalizing b run with
  | nil => exact ⟨run, rfl, hrun⟩
  | cons hbefore hleft ih =>
    obtain ⟨joined, hjoin, hjoined⟩ := hleft.join hc hrun
    rw [joinAll, List.foldlM_cons, hjoin, List.append_assoc]
    exact ih hjoined

/-- **In whichever order neighbours are joined**, the run that is left stands for the list. -/
theorem joinRuns_covers (n start : Nat) {before : List (Run α × Nat)} {rest : List (Run α)}
    (hbefore : CoverBefore less s arrange a before) (hrun : run.Covers less s arrange b)
    (hrest : CoverAll less s arrange c rest) :
    ∃ last, joinRuns less arrange n before start run rest = some last ∧
      last.Covers less s arrange (a ++ b ++ c) := by
  induction hrest generalizing a b before start run with
  | nil =>
    rw [List.append_nil]
    exact joinAll_covers hc hbefore hrun
  | @cons d e next rest hnext hrest ih =>
    rw [joinRuns]
    dsimp only
    generalize height n start _ _ = h
    obtain ⟨before', run', a', b', hbelow, heq, hbefore', hrun'⟩ :=
      joinBelow_covers hc h hbefore hrun
    rw [hbelow, heq, ← List.append_assoc]
    exact ih _ (.cons hbefore' hrun') hnext

/-! ### Cutting into runs -/

omit hc in
theorem natural_ne_nil {items : List α} (hsome : items ≠ []) : (natural less items).1 ≠ [] := by
  unfold natural
  split
  · split <;> simp
  · exact hsome

/-- The first run of a list stands for a stretch of it, which is not empty. -/
theorem firstRun_covers {eager : Bool} (hpieces : eager = false → Arranges less s arrange)
    (good : Nat) {items : List α} (hitems : ∀ x ∈ items, x ∈ s) (hsome : items ≠ []) :
    ∃ run rest stretch, firstRun less eager good items = some (run, rest) ∧
      items = stretch ++ rest ∧ stretch ≠ [] ∧ run.Covers less s arrange stretch := by
  obtain ⟨stretch, hstretch, harranged⟩ := natural_arranged hc hitems
  have hnatural : (natural less items).1 ≠ [] := natural_ne_nil hsome
  have htaken : ∀ n, n ≠ 0 → items.take n ≠ [] := fun n hn htake =>
    (List.take_eq_nil_iff.1 htake).elim hn hsome
  unfold firstRun
  dsimp only
  split
  · exact ⟨_, _, stretch, rfl, hstretch,
      fun h => hnatural (List.perm_nil.1 (h ▸ harranged.perm)), .sorted harranged⟩
  · next hshort =>
    have hwithin : ∀ n, ∀ x ∈ items.take n, x ∈ s := fun n x hx =>
      hitems x (List.mem_of_mem_take hx)
    split
    · obtain ⟨piece, hpiece, hsorted⟩ := short_arranges hc _ (hwithin shortLength)
      rw [hpiece]
      exact ⟨_, _, items.take shortLength, rfl, (List.take_append_drop _ _).symm,
        htaken _ (by decide), .sorted hsorted⟩
    · next heager =>
      refine ⟨_, _, items.take good, rfl, (List.take_append_drop _ _).symm, htaken _ ?_,
        .pending (hwithin good) (hpieces (by simpa using heager))⟩
      rintro rfl
      exact hshort (Nat.zero_le _)

theorem runsWithin_covers {eager : Bool} (hpieces : eager = false → Arranges less s arrange)
    (good : Nat) {bound : Nat} {items : List α} (hitems : ∀ x ∈ items, x ∈ s)
    (hbound : items.length ≤ bound) :
    ∃ runs, runsWithin less eager good bound items = some runs ∧
      CoverAll less s arrange items runs := by
  induction bound generalizing items with
  | zero =>
    obtain rfl := List.length_eq_zero_iff.1 (Nat.le_zero.1 hbound)
    exact ⟨[], rfl, .nil⟩
  | succ bound ih =>
    cases items with
    | nil => exact ⟨[], rfl, .nil⟩
    | cons x items =>
      obtain ⟨run, rest, stretch, hfirst, hstretch, hsome, hcovers⟩ :=
        firstRun_covers hc hpieces good hitems (List.cons_ne_nil x items)
      have hrest : rest.length ≤ bound := by
        have hpos := List.length_pos_iff.2 hsome
        have hlength := congrArg List.length hstretch
        rw [List.length_append] at hlength
        omega
      obtain ⟨runs, hruns, hall⟩ :=
        ih (fun y hy => hitems y (hstretch ▸ List.mem_append_right stretch hy)) hrest
      refine ⟨run :: runs, ?_, hstretch ▸ .cons hcovers hall⟩
      simp only [runsWithin, hfirst, hruns, Option.bind_eq_bind, Option.bind_some]

/-- **Merging runs arranges**, if what no natural run covers is arranged or sorted at once. -/
theorem adaptive_arranges {eager : Bool} (hpieces : eager = false → Arranges less s arrange) :
    Arranges less s (adaptive less arrange eager) := by
  intro items hitems
  obtain ⟨runs, hruns, hall⟩ :=
    runsWithin_covers hc hpieces (goodLength items.length) hitems (Nat.le_refl _)
  unfold adaptive
  dsimp only
  rw [hruns]
  generalize items.length = n
  cases hall with
  | nil => exact ⟨[], rfl, .nil⟩
  | cons hrun hrest =>
    obtain ⟨last, hlast, hcovers⟩ := joinRuns_covers hc n 0 .nil hrun hrest
    obtain ⟨out, hout, harranged⟩ := hcovers.settled
    refine ⟨out, ?_, harranged⟩
    simp only [Option.bind_eq_bind, Option.bind_some, hlast]
    exact hout

end

/-! ### Dividing -/

section

variable (hc : Consistent less s)
include hc

/-- **Dividing by a test arranges** the items if each side is arranged, and those that pass are less
than those that do not. -/
theorem Arranged.divided {test : α → Bool} {items l r : List α} (hitems : ∀ x ∈ items, x ∈ s)
    (h : ∀ x ∈ items, ∀ y ∈ items, test x = true → test y = false → less x y = true)
    (hl : Arranged less s (items.filter test) l) (hr : Arranged less s (items.filter (!test ·)) r) :
    Arranged less s items (l ++ r) where
  within := hitems
  perm := (hl.perm.append hr.perm).trans (List.filter_append_perm test items)
  ordered := by
    refine List.pairwise_append.2 ⟨hl.ordered, hr.ordered, fun x hx y hy => ?_⟩
    obtain ⟨hx, hpasses⟩ := List.mem_filter.1 (hl.mem_iff.1 hx)
    obtain ⟨hy, hfails⟩ := List.mem_filter.1 (hr.mem_iff.1 hy)
    exact hc.asymm x (hitems x hx) y (hitems y hy) (h x hx y hy hpasses (by simpa using hfails))
  kept z hz := by
    rw [List.filter_append, hl.kept z hz, hr.kept z hz, List.filter_comm (tied less z) test,
      List.filter_comm (tied less z) (!test ·)]
    have hties : ∀ x ∈ items.filter (tied less z), x ∈ items ∧ tied less z x = true :=
      fun x hx => List.mem_filter.1 hx
    generalize items.filter (tied less z) = ties at hties
    -- What is tied with one item is not strictly in order, so it is all on one side.
    by_cases hpass : ∀ x ∈ ties, test x = true
    · have hnone : ties.filter (!test ·) = [] :=
        List.filter_eq_nil_iff.2 fun x hx => by simp [hpass x hx]
      rw [List.filter_eq_self.2 hpass, hnone, List.append_nil]
    · obtain ⟨y, hy, hfails⟩ : ∃ y ∈ ties, test y = false := by simpa using hpass
      have hfail : ∀ x ∈ ties, test x = false := by
        intro x hx
        refine Bool.eq_false_iff.2 fun hpasses => ?_
        obtain ⟨hxi, hxz⟩ := hties x hx
        obtain ⟨hyi, hyz⟩ := hties y hy
        have hnot := hc.not_less_of_tied (hitems x hxi) (hitems y hyi) hz hxz hyz
        rw [h x hxi y hyi hpasses hfails] at hnot
        cases hnot
      have hnone : ties.filter test = [] :=
        List.filter_eq_nil_iff.2 fun x hx => by simp [hfail x hx]
      rw [hnone, List.nil_append]
      exact List.filter_eq_self.2 fun x hx => by simp [hfail x hx]

omit hc in
/-- Items are divided by the test, if the side told for the item at the place is the one where the
test has it. -/
theorem divide_eq {test : α → Bool} {place : Nat} {first : Bool} {items : List α}
    (h : ∀ x ∈ (items.drop place).take 1, test x = first) :
    divide test place first items = (items.filter test, items.filter (!test ·)) := by
  have hitems : items =
      items.take place ++ ((items.drop place).take 1 ++ items.drop (place + 1)) := by
    rw [← List.drop_drop, List.take_append_drop, List.take_append_drop]
  unfold divide
  dsimp only
  generalize (items.drop place).take 1 = pivot at h hitems
  generalize items.take place = before at hitems
  generalize items.drop (place + 1) = after at hitems
  subst hitems
  simp only [List.filter_append]
  cases first with
  | true =>
    have hnone : pivot.filter (!test ·) = [] :=
      List.filter_eq_nil_iff.2 fun x hx => by simp [h x hx]
    simp [List.filter_eq_self.2 h, hnone]
  | false =>
    have hnone : pivot.filter test = [] := List.filter_eq_nil_iff.2 fun x hx => by simp [h x hx]
    have hall : pivot.filter (!test ·) = pivot :=
      List.filter_eq_self.2 fun x hx => by simp [h x hx]
    simp [hall, hnone]

omit hc in
theorem eq_getD_of_mem {items : List α} {place : Nat} {x item : α}
    (hx : x ∈ (items.drop place).take 1) : x = items.getD place item := by
  rw [List.take_one, List.head?_drop, Option.mem_toList] at hx
  rw [List.getD_eq_getElem?_getD, hx, Option.getD_some]

omit hc in
theorem getD_mem {items : List α} {item : α} (hitem : item ∈ items) (place : Nat) :
    items.getD place item ∈ items := by
  rw [List.getD_eq_getElem?_getD]
  cases hget : items[place]? with
  | none => exact hitem
  | some x => exact List.mem_of_getElem? hget

/-- What is less than a pivot on one side, and the rest with the pivot on the other. -/
theorem divide_below {place : Nat} {pivot : α} {items : List α} (hp : pivot ∈ s)
    (hat : ∀ x ∈ (items.drop place).take 1, x = pivot) :
    divide (fun x => less x pivot) place false items =
      (items.filter fun x => less x pivot, items.filter fun x => !less x pivot) :=
  divide_eq fun x hx => by rw [hat x hx, hc.irrefl hp]

/-- What is not greater than a pivot on one side with the pivot, and the rest on the other. -/
theorem divide_equal {place : Nat} {pivot : α} {items : List α} (hp : pivot ∈ s)
    (hat : ∀ x ∈ (items.drop place).take 1, x = pivot) :
    divide (fun x => !less pivot x) place true items =
      (items.filter fun x => !less pivot x, items.filter fun x => !!less pivot x) :=
  divide_eq fun x hx => by rw [hat x hx, hc.irrefl hp, Bool.not_false]

/-- Both sides of a pivot arranged. -/
theorem Arranged.around {pivot : α} {items l r : List α} (hitems : ∀ x ∈ items, x ∈ s)
    (hp : pivot ∈ s) (hl : Arranged less s (items.filter fun x => less x pivot) l)
    (hr : Arranged less s (items.filter fun x => !less x pivot) r) :
    Arranged less s items (l ++ r) :=
  .divided hc hitems (fun x hx y hy hxp hyp =>
    hc.less_of_less_of_not (hitems x hx) hp (hitems y hy) hxp hyp) hl hr

/-- Where nothing is less than the pivot, what is not greater than it is in place. -/
theorem Arranged.above {pivot : α} {items r : List α} (hitems : ∀ x ∈ items, x ∈ s)
    (hp : pivot ∈ s) (hleast : ∀ x ∈ items, less x pivot = false)
    (hr : Arranged less s (items.filter fun x => !!less pivot x) r) :
    Arranged less s items ((items.filter fun x => !less pivot x) ++ r) := by
  have htied : ∀ x ∈ items.filter fun x => !less pivot x, x ∈ items ∧ less pivot x = false :=
    fun x hx => by simpa using List.mem_filter.1 hx
  refine .divided hc hitems (fun x hx y hy hxp hyp => ?_)
    (.of_ordered (fun x hx => hitems x (htied x hx).1) ?_) hr
  · rw [Bool.not_eq_true'] at hxp
    rw [Bool.not_eq_false'] at hyp
    exact hc.less_of_not_of_less (hitems x hx) hp (hitems y hy) hxp hyp
  · exact List.pairwise_of_forall_mem_list fun x hx y hy =>
      hc.through y (hitems y (htied y hy).1) pivot hp x (hitems x (htied x hx).1)
        (hleast y (htied y hy).1) (htied x hx).2

/-- **Sorting by dividing arranges.**  Of the pivot to the left it only matters that no item is
less: if the next pivot is not greater, then nothing is less than that either. -/
theorem quick_arranged (limit : Nat) (low? : Option α) {items : List α}
    (hitems : ∀ x ∈ items, x ∈ s)
    (hlow : ∀ low ∈ low?, low ∈ s ∧ ∀ x ∈ items, less x low = false) :
    ∃ out, quick less limit low? items = some out ∧ Arranged less s items out := by
  induction limit generalizing low? items with
  | zero =>
    have hruns : Arranges less s (adaptive less some true) := adaptive_arranges hc nofun
    unfold quick
    split
    · exact short_arranges hc items hitems
    · exact hruns items hitems
  | succ limit ih =>
    unfold quick
    split
    · exact short_arranges hc items hitems
    cases items with
    | nil => exact ⟨[], rfl, .nil⟩
    | cons item tail =>
      have hside : ∀ test : α → Bool, ∀ x ∈ (item :: tail).filter test, x ∈ s := fun test x hx =>
        hitems x (List.mem_filter.1 hx).1
      dsimp only
      generalize pivotPlace less _ 0 _ = place
      have hp := hitems _ (getD_mem (List.mem_cons_self (a := item) (l := tail)) place)
      have hat : ∀ x ∈ ((item :: tail).drop place).take 1, x = (item :: tail).getD place item :=
        fun x hx => eq_getD_of_mem hx
      rw [divide_below hc hp hat, divide_equal hc hp hat]
      dsimp only
      split
      · next hdone =>
        have hleast : ∀ x ∈ item :: tail, less x ((item :: tail).getD place item) = false := by
          intro x hx
          rcases (Bool.or_eq_true _ _).mp hdone with hnot | hnone
          · cases low? with
            | none => cases hnot
            | some low =>
              obtain ⟨hlows, hleft⟩ := hlow low rfl
              exact hc.through x (hitems x hx) low hlows _ hp (hleft x hx) (by simpa using hnot)
          · have hempty := List.filter_eq_nil_iff.1 (List.isEmpty_iff.1 hnone)
            simpa using hempty x hx
        obtain ⟨right, hright, hrest⟩ := ih none (hside _) nofun
        rw [hright]
        exact ⟨_, rfl, .above hc hitems hp hleast hrest⟩
      · obtain ⟨left, hleft, hbelow⟩ := ih low? (hside _) fun low hl =>
          ⟨(hlow low hl).1, fun x hx => (hlow low hl).2 x (List.mem_filter.1 hx).1⟩
        obtain ⟨right, hright, hrest⟩ := ih (some ((item :: tail).getD place item))
          (hside fun x => !less x ((item :: tail).getD place item)) fun low hl => by
            obtain rfl := Option.some.inj hl
            exact ⟨hp, fun x hx => by simpa using (List.mem_filter.1 hx).2⟩
        rw [hleft, hright]
        exact ⟨_, rfl, .around hc hitems hp hbelow hrest⟩

theorem arrange_arranges : Arranges less s (arrange less) :=
  fun _ hitems => quick_arranged hc _ none hitems nofun

/-- **Sorting has a result, and arranges.** -/
theorem sort_arranges : Arranges less s (sort less) := by
  intro items hitems
  unfold sort
  split
  · exact ⟨_, rfl, insertion_arranged hc hitems⟩
  · exact adaptive_arranges hc (fun _ => arrange_arranges hc) items hitems

end

end LayeredStore.Sorting
