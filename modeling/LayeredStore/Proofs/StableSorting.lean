import LayeredStore.Sorting.Short
import Mathlib.Data.Set.Defs

/-! # Stable sorting of short lists

Sorting asks of its test that it be `Consistent` on the items: that no two of them are less than
each other, and that what is not less is not less through a third.  A list is then `Arranged` if it
has the given items in order, with those that are tied as they were among themselves.

Everything is put together by one rule, `Arranged.append`.  Two sorted lists may be cut so that
whatever is before the cut goes before whatever is behind it (`Cut`); arrangements of the two parts
are then, one after the other, an arrangement of the whole.  A merge is a cut after each item
(`mergeFront_arranged`).  A merge from both ends is two cuts, and of those the later one is further
on in both lists (`Cut.le`), which leaves at most one item between them, so the merge has a result
(`mergeBoth_arranged`).
-/
namespace LayeredStore.Sorting

variable {α : Type}

/-- What sorting asks of a test on the items of a set. -/
structure Consistent (less : α → α → Bool) (s : Set α) : Prop where
  /-- No two items are less than each other. -/
  asymm : ∀ x ∈ s, ∀ y ∈ s, less x y = true → less y x = false
  /-- What is not less is not less through a third item. -/
  through : ∀ x ∈ s, ∀ y ∈ s, ∀ z ∈ s, less x y = false → less y z = false → less x z = false

/-- Whether two items are in no order. -/
def tied (less : α → α → Bool) (x y : α) : Bool := !less x y && !less y x

/-- No item is less than one before it. -/
def Ordered (less : α → α → Bool) (l : List α) : Prop := l.Pairwise fun x y => less y x = false

/-- A list has the items of another one in order, the tied ones as they were. -/
structure Arranged (less : α → α → Bool) (s : Set α) (items out : List α) : Prop where
  /-- The items are of the set. -/
  within : ∀ x ∈ items, x ∈ s
  /-- No item is lost or repeated. -/
  perm : out.Perm items
  /-- They are in order. -/
  ordered : Ordered less out
  /-- Items that are tied with one of them are as they were. -/
  kept : ∀ z ∈ s, out.filter (tied less z) = items.filter (tied less z)

/-- A way to sort has a result for every list of items of the set, and arranges them. -/
def Arranges (less : α → α → Bool) (s : Set α) (sorted : List α → Option (List α)) : Prop :=
  ∀ items, (∀ x ∈ items, x ∈ s) → ∃ out, sorted items = some out ∧ Arranged less s items out

/-- Two lists are cut, each into two parts: what is before a cut goes before what is behind it. -/
structure Cut (less : α → α → Bool) (l₁ l₂ r₁ r₂ : List α) : Prop where
  left : ∀ x ∈ l₁, ∀ y ∈ r₂, less y x = false
  right : ∀ x ∈ l₂, ∀ y ∈ r₁, less y x = true

theorem tied_iff {less : α → α → Bool} {x y : α} :
    tied less x y = true ↔ less x y = false ∧ less y x = false := by
  simp [tied]

section

variable {less : α → α → Bool} {s : Set α} (hc : Consistent less s)
include hc

namespace Consistent

theorem irrefl {x : α} (hx : x ∈ s) : less x x = false := by
  cases h : less x x with
  | false => rfl
  | true => exact h.symm.trans (hc.asymm x hx x hx h)

/-- What is less than an item is less than what is not less than that. -/
theorem less_of_less_of_not {x y z : α} (hx : x ∈ s) (hy : y ∈ s) (hz : z ∈ s)
    (hxy : less x y = true) (hzy : less z y = false) : less x z = true := by
  cases hxz : less x z with
  | true => rfl
  | false => exact absurd (hc.through x hx z hz y hy hxz hzy) (by rw [hxy]; decide)

/-- What is not less than an item is greater than what is less than that. -/
theorem less_of_not_of_less {x y z : α} (hx : x ∈ s) (hy : y ∈ s) (hz : z ∈ s)
    (hyx : less y x = false) (hyz : less y z = true) : less x z = true := by
  cases hxz : less x z with
  | true => rfl
  | false => exact absurd (hc.through y hy x hx z hz hyx hxz) (by rw [hyz]; decide)

/-- What is tied with one item is in no order. -/
theorem not_less_of_tied {x y z : α} (hx : x ∈ s) (hy : y ∈ s) (hz : z ∈ s)
    (hzx : tied less z x = true) (hzy : tied less z y = true) : less x y = false :=
  hc.through x hx z hz y hy (tied_iff.1 hzx).2 (tied_iff.1 hzy).1

theorem flip : Consistent (flip less) s where
  asymm x hx y hy h := hc.asymm y hy x hx h
  through x hx y hy z hz hxy hyz := hc.through z hz y hy x hx hyz hxy

end Consistent

/-- Of two lists in strict order, one has nothing that is tied with a given item. -/
theorem filter_tied_comm {a b : List α} (ha : ∀ x ∈ a, x ∈ s) (hb : ∀ y ∈ b, y ∈ s)
    (h : ∀ x ∈ a, ∀ y ∈ b, less y x = true) {z : α} (hz : z ∈ s) :
    b.filter (tied less z) ++ a.filter (tied less z) =
      a.filter (tied less z) ++ b.filter (tied less z) := by
  rcases hx : a.filter (tied less z) with _ | ⟨x, _⟩
  · rw [List.append_nil, List.nil_append]
  rcases hy : b.filter (tied less z) with _ | ⟨y, _⟩
  · rw [List.append_nil, List.nil_append]
  obtain ⟨hxa, hxz⟩ := List.mem_filter.1 (hx ▸ List.mem_cons_self)
  obtain ⟨hyb, hyz⟩ := List.mem_filter.1 (hy ▸ List.mem_cons_self)
  have hnot := hc.not_less_of_tied (hb y hyb) (ha x hxa) hz hyz hxz
  rw [h x hxa y hyb] at hnot
  cases hnot

end

/-! ### Arrangements -/

namespace Arranged

variable {less : α → α → Bool} {s : Set α} {items out : List α}

theorem mem_iff (h : Arranged less s items out) {x : α} : x ∈ out ↔ x ∈ items := h.perm.mem_iff

theorem out_within (h : Arranged less s items out) : ∀ x ∈ out, x ∈ s :=
  fun x hx => h.within x (h.mem_iff.1 hx)

/-- What is in order is arranged. -/
theorem of_ordered (hwithin : ∀ x ∈ items, x ∈ s) (h : Ordered less items) :
    Arranged less s items items :=
  ⟨hwithin, .refl _, h, fun _ _ => rfl⟩

theorem nil : Arranged less s [] [] := of_ordered nofun .nil

theorem singleton {x : α} (hx : x ∈ s) : Arranged less s [x] [x] :=
  of_ordered (by simpa using hx) (List.pairwise_singleton _ _)

/-- Arranging what others have been arranged into arranges those. -/
theorem of_append {a b l r : List α} (ha : Arranged less s a l) (hb : Arranged less s b r)
    (h : Arranged less s (l ++ r) out) : Arranged less s (a ++ b) out where
  within x hx := (List.mem_append.1 hx).elim (ha.within x) (hb.within x)
  perm := h.perm.trans (ha.perm.append hb.perm)
  ordered := h.ordered
  kept z hz := by
    rw [h.kept z hz, List.filter_append, List.filter_append, ha.kept z hz, hb.kept z hz]

/-- **Arrangements on both sides of a cut** are an arrangement, one after the other. -/
theorem append (hc : Consistent less s) {l₁ l₂ r₁ r₂ m₁ m₂ : List α}
    (hl : Ordered less (l₁ ++ l₂)) (hr : Ordered less (r₁ ++ r₂)) (hcut : Cut less l₁ l₂ r₁ r₂)
    (h₁ : Arranged less s (l₁ ++ r₁) m₁) (h₂ : Arranged less s (l₂ ++ r₂) m₂) :
    Arranged less s ((l₁ ++ l₂) ++ (r₁ ++ r₂)) (m₁ ++ m₂) := by
  obtain ⟨-, -, hll⟩ := List.pairwise_append.1 hl
  obtain ⟨-, -, hrr⟩ := List.pairwise_append.1 hr
  obtain ⟨hl₁, hr₁⟩ := List.forall_mem_append.1 h₁.within
  obtain ⟨hl₂, hr₂⟩ := List.forall_mem_append.1 h₂.within
  constructor
  case within =>
    simp only [List.forall_mem_append]
    exact ⟨⟨hl₁, hl₂⟩, hr₁, hr₂⟩
  case perm =>
    have hmiddle : (l₁ ++ (r₁ ++ (l₂ ++ r₂))).Perm (l₁ ++ (l₂ ++ (r₁ ++ r₂))) := by
      rw [← List.append_assoc r₁, ← List.append_assoc l₂]
      exact (List.perm_append_comm.append_right r₂).append_left l₁
    rw [List.append_assoc]
    refine (h₁.perm.append h₂.perm).trans ?_
    rwa [List.append_assoc]
  case ordered =>
    refine List.pairwise_append.2 ⟨h₁.ordered, h₂.ordered, fun x hx y hy => ?_⟩
    rcases List.mem_append.1 (h₁.mem_iff.1 hx) with hx | hx <;>
      rcases List.mem_append.1 (h₂.mem_iff.1 hy) with hy | hy
    · exact hll x hx y hy
    · exact hcut.left x hx y hy
    · exact hc.asymm x (hr₁ x hx) y (hl₂ y hy) (hcut.right y hy x hx)
    · exact hrr x hx y hy
  case kept =>
    intro z hz
    have hcomm := filter_tied_comm hc hl₂ hr₁ hcut.right hz
    simp only [List.filter_append, h₁.kept z hz, h₂.kept z hz, List.append_assoc]
    rw [← List.append_assoc (r₁.filter _), hcomm, List.append_assoc]

/-- Reversing turns the test round. -/
theorem of_flip (h : Arranged (flip less) s items out) :
    Arranged less s items.reverse out.reverse where
  within x hx := h.within x (List.mem_reverse.1 hx)
  perm := (List.reverse_perm out).trans (h.perm.trans (List.reverse_perm items).symm)
  ordered := List.pairwise_reverse.2 h.ordered
  kept z hz := by
    have hflip : tied less z = tied (flip less) z := funext fun x => Bool.and_comm _ _
    rw [List.filter_reverse, List.filter_reverse, hflip, h.kept z hz]

end Arranged

/-! ### Merging from one end -/

section

variable {less : α → α → Bool} {s : Set α} (hc : Consistent less s)
include hc

variable {l r a b : List α}

/-- What is less than the first item of an ordered list is less than every item. -/
theorem less_of_less_head {x y : α} (hl : Ordered less (x :: l)) (hxs : ∀ z ∈ x :: l, z ∈ s)
    (hy : y ∈ s) (h : less y x = true) : ∀ z ∈ x :: l, less y z = true := by
  intro z hz
  rcases List.mem_cons.1 hz with rfl | hmem
  · exact h
  · exact hc.less_of_less_of_not hy (hxs x List.mem_cons_self) (hxs z hz) h
      (List.rel_of_pairwise_cons hl hmem)

/-- What the first item of an ordered list is not less than, no item is less than. -/
theorem not_less_of_not_head {x y : α} (hr : Ordered less (y :: r)) (hys : ∀ z ∈ y :: r, z ∈ s)
    (hx : x ∈ s) (h : less y x = false) : ∀ z ∈ y :: r, less z x = false := by
  intro z hz
  rcases List.mem_cons.1 hz with rfl | hmem
  · exact h
  · exact hc.through z (hys z hz) y (hys y List.mem_cons_self) x hx
      (List.rel_of_pairwise_cons hr hmem) h

/-- **A merge arranges.** -/
theorem mergeFront_arranged (hl : Ordered less l) (hr : Ordered less r) (hls : ∀ x ∈ l, x ∈ s)
    (hrs : ∀ y ∈ r, y ∈ s) : Arranged less s (l ++ r) (mergeFront less l r) := by
  induction l generalizing r with
  | nil =>
    rw [mergeFront, List.nil_merge]
    exact .of_ordered hrs hr
  | cons x l ihl =>
    induction r with
    | nil =>
      rw [mergeFront, List.merge_right, List.append_nil]
      exact .of_ordered hls hl
    | cons y r ihr =>
      have hx : x ∈ s := hls x List.mem_cons_self
      have hy : y ∈ s := hrs y List.mem_cons_self
      rw [mergeFront, List.cons_merge_cons]
      cases hyx : less y x with
      | false =>
        have hcut : Cut less [x] l [] (y :: r) :=
          ⟨by simpa using not_less_of_not_head hc hr hrs hx hyx, nofun⟩
        exact .append hc hl hr hcut (.singleton hx)
          (ihl hl.of_cons hr (fun z hz => hls z (List.mem_cons_of_mem x hz)) hrs)
      | true =>
        have hcut : Cut less [] (x :: l) [y] r :=
          ⟨nofun, by simpa using less_of_less_head hc hl hls hy hyx⟩
        exact .append hc hl hr hcut (.singleton hy)
          (ihr hr.of_cons fun z hz => hrs z (List.mem_cons_of_mem y hz))

/-- A merge of two arranged lists arranges both. -/
theorem Arranged.mergeFront (ha : Arranged less s a l) (hb : Arranged less s b r) :
    Arranged less s (a ++ b) (mergeFront less l r) :=
  .of_append ha hb (mergeFront_arranged hc ha.ordered hb.ordered ha.out_within hb.out_within)

/-- A merge from the back is one from the front in the mirror. -/
theorem Arranged.mergeBack (ha : Arranged less s a l) (hb : Arranged less s b r) :
    Arranged less s (a ++ b) (mergeBack less l r) := by
  have hmirror : Arranged (flip less) s (r.reverse ++ l.reverse)
      (Sorting.mergeFront (flip less) r.reverse l.reverse) :=
    mergeFront_arranged hc.flip (List.pairwise_reverse.2 hb.ordered)
      (List.pairwise_reverse.2 ha.ordered) (fun x hx => hb.out_within x (List.mem_reverse.1 hx))
      fun x hx => ha.out_within x (List.mem_reverse.1 hx)
  have harranged := hmirror.of_flip
  rw [List.reverse_append, List.reverse_reverse, List.reverse_reverse] at harranged
  exact .of_append ha hb harranged

/-! ### Insertion -/

omit hc in
theorem insertLast_eq (x : α) (l : List α) :
    insertLast less x l = [x].merge l fun y x => !less y x := by
  induction l with
  | nil => rw [insertLast, List.merge_right]
  | cons last before ih =>
    rw [insertLast, List.cons_merge_cons, List.nil_merge, ih]
    cases less x last <;> rfl

/-- Putting an item into a sorted list merges it in from the back. -/
theorem Arranged.insertLast {x : α} (ha : Arranged less s a l.reverse) (hx : x ∈ s) :
    Arranged less s (a ++ [x]) (insertLast less x l).reverse := by
  have hmerged := ha.mergeBack hc (.singleton hx)
  rw [Sorting.mergeBack, List.reverse_reverse, List.reverse_singleton] at hmerged
  rwa [insertLast_eq]

theorem Arranged.insertAll {items : List α} (ha : Arranged less s a l)
    (hitems : ∀ x ∈ items, x ∈ s) : Arranged less s (a ++ items) (insertAll less l items) := by
  rw [Sorting.insertAll]
  rw [← List.reverse_reverse l] at ha
  generalize l.reverse = sorted at ha
  induction items generalizing a sorted with
  | nil => rwa [List.append_nil]
  | cons x rest ih =>
    obtain ⟨hx, hrest⟩ := List.forall_mem_cons.1 hitems
    rw [List.append_cons]
    exact ih hrest _ (ha.insertLast hc hx)

theorem insertion_arranged {items : List α} (hitems : ∀ x ∈ items, x ∈ s) :
    Arranged less s items (insertion less items) :=
  Arranged.nil.insertAll hc hitems

/-! ### Four items -/

omit hc in
theorem pair_eq (x y : α) : pair less x y = mergeFront less [x] [y] := by
  rw [pair, mergeFront, List.cons_merge_cons, List.nil_merge, List.merge_right]
  cases less y x <;> rfl

theorem pair_arranged {x y : α} (hx : x ∈ s) (hy : y ∈ s) :
    Arranged less s [x, y] (pair less x y) := by
  rw [pair_eq]
  exact (Arranged.singleton hx).mergeFront hc (.singleton hy)

/-- Two pairs in order are merged by three comparisons. -/
theorem merge_pairs {a b c d : α} (ha : a ∈ s) (hb : b ∈ s) (hcs : c ∈ s) (hd : d ∈ s)
    (hab : less b a = false) (hcd : less d c = false) :
    (match less c a, less d b with
      | false, false => a :: (pair less b c ++ [d])
      | false, true => a :: (pair less c d ++ [b])
      | true, false => c :: (pair less a b ++ [d])
      | true, true => c :: (pair less a d ++ [b])) = mergeFront less [a, b] [c, d] := by
  have hfirst : ∀ x y, less y x = false → pair less x y = [x, y] := fun x y h => by simp [pair, h]
  simp only [mergeFront, List.cons_merge_cons, List.nil_merge, List.merge_right]
  cases hca : less c a <;> cases hdb : less d b
  case false.false => cases hcb : less c b <;> simp [pair, hcb]
  case false.true =>
    have hcb : less c b = true := hc.less_of_not_of_less hcs hd hb hcd hdb
    simp [hfirst c d hcd, hcb]
  case true.false =>
    have hda : less d a = false := hc.through d hd b hb a ha hdb hab
    simp [hfirst a b hab, hda]
  case true.true => cases hda : less d a <;> simp [pair, hda]

/-- Five comparisons merge two pairs. -/
theorem four_eq {p q r t : α} (hp : p ∈ s) (hq : q ∈ s) (hr : r ∈ s) (ht : t ∈ s) :
    four less p q r t = mergeFront less (pair less p q) (pair less r t) := by
  have hordered : ∀ x ∈ s, ∀ y ∈ s, ∃ a ∈ s, ∃ b ∈ s, less b a = false ∧
      pair less x y = [a, b] ∧ (if less y x then (y, x) else (x, y)) = (a, b) := by
    intro x hx y hy
    cases hyx : less y x with
    | false => exact ⟨x, hx, y, hy, hyx, by simp [pair, hyx], by simp⟩
    | true => exact ⟨y, hy, x, hx, hc.asymm y hy x hx hyx, by simp [pair, hyx], by simp⟩
  obtain ⟨a, ha, b, hb, hab, hpq, hpq'⟩ := hordered p hp q hq
  obtain ⟨c, hcs, d, hd, hcd, hrt, hrt'⟩ := hordered r hr t ht
  rw [four, hpq, hrt, hpq', hrt']
  exact merge_pairs hc ha hb hcs hd hab hcd

theorem half_arranged (byFour : Bool) {items : List α} (hitems : ∀ x ∈ items, x ∈ s) :
    Arranged less s items (half less byFour items) := by
  unfold half
  split
  · next p q r t rest =>
    obtain ⟨hp, hq, hr, ht, hrest⟩ : p ∈ s ∧ q ∈ s ∧ r ∈ s ∧ t ∈ s ∧ ∀ x ∈ rest, x ∈ s := by
      simpa using hitems
    cases byFour with
    | false => exact insertion_arranged hc hitems
    | true =>
      rw [if_pos rfl, four_eq hc hp hq hr ht]
      exact ((pair_arranged hc hp hq).mergeFront hc (pair_arranged hc hr ht)).insertAll hc hrest
  · exact insertion_arranged hc hitems

/-! ### Merging from both ends -/

/-- The first items of a merge are the merge of what is before a cut. -/
theorem mergeSome_cuts {n : Nat} (hl : Ordered less l) (hr : Ordered less r)
    (hls : ∀ x ∈ l, x ∈ s) (hrs : ∀ y ∈ r, y ∈ s) (hnl : n ≤ l.length) (hnr : n ≤ r.length) :
    ∃ l₁ r₁ l₂ r₂, mergeSome (fun x y => less y x) n l r = (mergeFront less l₁ r₁, l₂, r₂) ∧
      l = l₁ ++ l₂ ∧ r = r₁ ++ r₂ ∧ l₁.length + r₁.length = n ∧ Cut less l₁ l₂ r₁ r₂ := by
  induction n generalizing l r with
  | zero =>
    have hnone : mergeSome (fun x y => less y x) 0 l r = ([], l, r) := by unfold mergeSome; rfl
    exact ⟨[], [], l, r, by rw [hnone, mergeFront, List.nil_merge], rfl, rfl, rfl, nofun, nofun⟩
  | succ n ih =>
    obtain ⟨x, l, rfl⟩ := List.exists_cons_of_length_pos (Nat.lt_of_lt_of_le n.succ_pos hnl)
    obtain ⟨y, r, rfl⟩ := List.exists_cons_of_length_pos (Nat.lt_of_lt_of_le n.succ_pos hnr)
    rw [mergeSome]
    cases hyx : less y x with
    | true =>
      obtain ⟨l₁, r₁, l₂, r₂, hsome, hlcut, rfl, hlength, hcut⟩ := ih hl hr.of_cons hls
        (fun z hz => hrs z (List.mem_cons_of_mem y hz)) (Nat.le_of_succ_le hnl)
        (Nat.le_of_succ_le_succ hnr)
      have hbelow := less_of_less_head hc hl hls (hrs y List.mem_cons_self) hyx
      refine ⟨l₁, y :: r₁, l₂, r₂, ?_, hlcut, rfl, by simp [← hlength, Nat.add_assoc], hcut.left,
        fun z hz => List.forall_mem_cons.2 ⟨hbelow z (hlcut ▸ List.mem_append_right l₁ hz),
          hcut.right z hz⟩⟩
      rw [if_pos rfl, hsome]
      cases l₁ with
      | nil => simp [mergeFront]
      | cons x' l₁ =>
        obtain ⟨rfl, -⟩ := List.cons.inj hlcut
        simp [mergeFront, hyx]
    | false =>
      obtain ⟨l₁, r₁, l₂, r₂, hsome, rfl, hrcut, hlength, hcut⟩ := ih hl.of_cons hr
        (fun z hz => hls z (List.mem_cons_of_mem x hz)) hrs (Nat.le_of_succ_le_succ hnl)
        (Nat.le_of_succ_le hnr)
      have habove := not_less_of_not_head hc hr hrs (hls x List.mem_cons_self) hyx
      refine ⟨x :: l₁, r₁, l₂, r₂, ?_, rfl, hrcut, by simp [← hlength, Nat.add_right_comm],
        List.forall_mem_cons.2 ⟨fun z hz => habove z (hrcut ▸ List.mem_append_right r₁ hz),
          hcut.left⟩, hcut.right⟩
      rw [if_neg Bool.false_ne_true, hsome]
      cases r₁ with
      | nil => simp [mergeFront]
      | cons y' r₁ =>
        obtain ⟨rfl, -⟩ := List.cons.inj hrcut
        simp [mergeFront, hyx]

omit hc in
theorem exists_mem_of_append_eq {a b c d : List α} (h : a ++ b = c ++ d)
    (hlength : c.length < a.length) : ∃ x ∈ a, x ∈ d := by
  rcases List.append_eq_append_iff.1 h with ⟨m, rfl, -⟩ | ⟨m, rfl, rfl⟩
  · rw [List.length_append] at hlength
    omega
  · cases m with
    | nil => simp at hlength
    | cons x m => exact ⟨x, by simp, by simp⟩

omit hc in
/-- **Of two cuts, the one behind more items is behind as many in both lists.** -/
theorem Cut.le {l₁ l₂ r₁ r₂ l₃ l₄ r₃ r₄ : List α} (h : Cut less l₁ l₂ r₁ r₂)
    (h' : Cut less l₃ l₄ r₃ r₄) (hl : l₁ ++ l₂ = l₃ ++ l₄) (hr : r₁ ++ r₂ = r₃ ++ r₄)
    (hlength : l₁.length + r₁.length ≤ l₃.length + r₃.length) :
    l₁.length ≤ l₃.length ∧ r₁.length ≤ r₃.length := by
  constructor
  · refine Nat.le_of_not_lt fun hlt => ?_
    obtain ⟨x, hx, hx'⟩ := exists_mem_of_append_eq hl hlt
    obtain ⟨y, hy, hy'⟩ := exists_mem_of_append_eq hr.symm (by omega)
    exact absurd (h'.right x hx' y hy) (by rw [h.left x hx y hy']; decide)
  · refine Nat.le_of_not_lt fun hlt => ?_
    obtain ⟨y, hy, hy'⟩ := exists_mem_of_append_eq hr hlt
    obtain ⟨x, hx, hx'⟩ := exists_mem_of_append_eq hl.symm (by omega)
    exact absurd (h.right x hx' y hy) (by rw [h'.left x hx y hy']; decide)

omit hc in
/-- A cut in the mirror. -/
theorem Cut.of_flip {l₁ l₂ r₁ r₂ : List α} (h : Cut (flip less) r₁ r₂ l₁ l₂) :
    Cut less l₂.reverse l₁.reverse r₂.reverse r₁.reverse where
  left x hx y hy := h.left y (List.mem_reverse.1 hy) x (List.mem_reverse.1 hx)
  right x hx y hy := h.right y (List.mem_reverse.1 hy) x (List.mem_reverse.1 hx)

omit hc in
/-- A list that goes on behind where another cut of it is. -/
theorem exists_of_append_eq {a b c d : List α} (h : a ++ b = c ++ d)
    (hlength : a.length ≤ c.length) : ∃ m, c = a ++ m ∧ b = m ++ d := by
  rcases List.append_eq_append_iff.1 h with ⟨m, rfl, rfl⟩ | ⟨m, rfl, rfl⟩
  · exact ⟨m, rfl, rfl⟩
  · rw [List.length_append] at hlength
    obtain rfl := List.length_eq_zero_iff.1 (by omega : m.length = 0)
    exact ⟨[], by simp, rfl⟩

/-- The last items of a merge are the merge of what is behind a cut. -/
theorem mergeSome_cuts_back {n : Nat} (hl : Ordered less l) (hr : Ordered less r)
    (hls : ∀ x ∈ l, x ∈ s) (hrs : ∀ y ∈ r, y ∈ s) (hnl : n ≤ l.length) (hnr : n ≤ r.length) :
    ∃ l₁ r₁ l₂ r₂ back, mergeSome (fun y x => less y x) n r.reverse l.reverse =
        (back, r₁.reverse, l₁.reverse) ∧ back.reverse = mergeBack less l₂ r₂ ∧
      l = l₁ ++ l₂ ∧ r = r₁ ++ r₂ ∧ l₂.length + r₂.length = n ∧ Cut less l₁ l₂ r₁ r₂ := by
  rw [← List.length_reverse] at hnl hnr
  obtain ⟨u, t, r₁, l₁, hsome, hrcut, hlcut, hlength, hcut⟩ :=
    mergeSome_cuts hc.flip (List.pairwise_reverse.2 hr) (List.pairwise_reverse.2 hl)
      (fun x hx => hrs x (List.mem_reverse.1 hx)) (fun x hx => hls x (List.mem_reverse.1 hx))
      hnr hnl
  refine ⟨l₁.reverse, r₁.reverse, t.reverse, u.reverse, mergeFront (flip less) u t, ?_, ?_, ?_, ?_,
    ?_, hcut.of_flip⟩
  · rw [List.reverse_reverse, List.reverse_reverse]
    exact hsome
  · rw [mergeBack, List.reverse_reverse, List.reverse_reverse]
    rfl
  · rw [← List.reverse_append, ← hlcut, List.reverse_reverse]
  · rw [← List.reverse_append, ← hrcut, List.reverse_reverse]
  · rw [List.length_reverse, List.length_reverse, Nat.add_comm, hlength]

omit hc in
/-- Between two cuts that are one item apart at most, that item is the next of the left list if
more of it is left than is behind the second cut; with it all of the left list is given. -/
theorem between_eq {l₁ x? t y? u : List α} {n m : Nat} (hn : n = l₁.length + x?.length + t.length)
    (hm : x?.length + y?.length + n = m) (hle : m = n ∨ m = n + 1) :
    (if m = n then ([], x? ++ t)
      else if n < (x? ++ t).length + (l₁ ++ x?).reverse.length then
        ((x? ++ t).take 1, (x? ++ t).drop 1)
      else ((y? ++ u).take 1, x? ++ t)) = (x? ++ y?, t) := by
  rw [List.length_append, List.length_reverse, List.length_append]
  rcases x? with _ | ⟨x, x?⟩
  · rw [List.length_nil] at hn hm
    rcases y? with _ | ⟨y, y?⟩
    · rw [if_pos (by simpa using hm.symm)]
      rfl
    · rw [List.length_cons] at hm
      obtain rfl := List.length_eq_zero_iff.1 (by omega : y?.length = 0)
      rw [if_neg (by omega), if_neg (by rw [List.length_nil]; omega)]
      rfl
  · rw [List.length_cons] at hn hm
    obtain rfl := List.length_eq_zero_iff.1 (by omega : x?.length = 0)
    obtain rfl := List.length_eq_zero_iff.1 (by omega : y?.length = 0)
    rw [if_neg (by omega), if_pos (by rw [List.length_cons]; omega)]
    rfl

/-- A merge from both ends cuts its lists twice, with one item between the cuts at most. -/
theorem mergeBoth_cuts (hl : Ordered less l) (hr : Ordered less r) (hls : ∀ x ∈ l, x ∈ s)
    (hrs : ∀ y ∈ r, y ∈ s) (hlength : r.length = l.length ∨ r.length = l.length + 1) :
    ∃ l₁ x? t r₁ y? u, l = l₁ ++ (x? ++ t) ∧ r = r₁ ++ (y? ++ u) ∧
      mergeBoth less l r = some (mergeFront less l₁ r₁ ++ ((x? ++ y?) ++ mergeBack less t u)) ∧
      Cut less l₁ (x? ++ t) r₁ (y? ++ u) ∧ Cut less x? t y? u ∧ (x? ++ y?).length ≤ 1 := by
  have hle : l.length ≤ r.length := by omega
  obtain ⟨l₁, r₁, l', r', hfront, hlfront, hrfront, hcount, hcut⟩ :=
    mergeSome_cuts hc hl hr hls hrs (Nat.le_refl l.length) hle
  obtain ⟨l₂, r₂, t, u, back, hsome, hback, hlback, hrback, hcount', hcut'⟩ :=
    mergeSome_cuts_back hc hl hr hls hrs (Nat.le_refl l.length) hle
  have hlsum := congrArg List.length hlback
  have hrsum := congrArg List.length hrback
  rw [List.length_append] at hlsum hrsum
  obtain ⟨hl₁, hr₁⟩ := hcut.le hcut' (hlfront.symm.trans hlback) (hrfront.symm.trans hrback)
    (by omega)
  obtain ⟨x?, rfl, rfl⟩ := exists_of_append_eq (hlfront.symm.trans hlback) hl₁
  obtain ⟨y?, rfl, rfl⟩ := exists_of_append_eq (hrfront.symm.trans hrback) hr₁
  rw [List.length_append] at hlsum hrsum
  have hm : x?.length + y?.length + l.length = r.length := by omega
  refine ⟨l₁, x?, t, r₁, y?, u, hlfront, hrfront, ?_, hcut, ⟨?_, ?_⟩, ?_⟩
  · have hmeet : t.length + (l₁ ++ x?).reverse.length = l.length := by
      rw [List.length_reverse, List.length_append, hlsum, Nat.add_comm]
    rw [mergeBoth, hfront, hsome]
    dsimp only
    rw [between_eq hlsum hm hlength, if_pos hmeet, hback, List.append_assoc]
  · exact fun x hx => hcut'.left x (List.mem_append_right l₁ hx)
  · exact fun x hx y hy => hcut'.right x hx y (List.mem_append_right r₁ hy)
  · rw [List.length_append]
    omega

omit hc in
theorem ordered_of_length_le_one (h : l.length ≤ 1) : Ordered less l := by
  rcases l with _ | ⟨x, _ | ⟨y, rest⟩⟩
  · exact .nil
  · exact List.pairwise_singleton _ _
  · simp at h

/-- **A merge from both ends arranges** two lists of one length, or the right one longer by one: its
ends meet. -/
theorem mergeBoth_arranged (hl : Ordered less l) (hr : Ordered less r) (hls : ∀ x ∈ l, x ∈ s)
    (hrs : ∀ y ∈ r, y ∈ s) (hlength : r.length = l.length ∨ r.length = l.length + 1) :
    ∃ out, mergeBoth less l r = some out ∧ Arranged less s (l ++ r) out := by
  obtain ⟨l₁, x?, t, r₁, y?, u, rfl, rfl, hboth, hcut, hcut', hone⟩ :=
    mergeBoth_cuts hc hl hr hls hrs hlength
  obtain ⟨hl₁, hxt, -⟩ := List.pairwise_append.1 hl
  obtain ⟨hr₁, hyu, -⟩ := List.pairwise_append.1 hr
  obtain ⟨-, ht, -⟩ := List.pairwise_append.1 hxt
  obtain ⟨-, hu, -⟩ := List.pairwise_append.1 hyu
  obtain ⟨hls₁, hxs, hts⟩ : (∀ x ∈ l₁, x ∈ s) ∧ (∀ x ∈ x?, x ∈ s) ∧ ∀ x ∈ t, x ∈ s := by
    simpa only [List.forall_mem_append] using hls
  obtain ⟨hrs₁, hys, hus⟩ : (∀ y ∈ r₁, y ∈ s) ∧ (∀ y ∈ y?, y ∈ s) ∧ ∀ y ∈ u, y ∈ s := by
    simpa only [List.forall_mem_append] using hrs
  have hmiddle : Arranged less s (x? ++ y?) (x? ++ y?) :=
    .of_ordered (List.forall_mem_append.2 ⟨hxs, hys⟩) (ordered_of_length_le_one hone)
  have hback : Arranged less s (t ++ u) (mergeBack less t u) :=
    (Arranged.of_ordered hts ht).mergeBack hc (.of_ordered hus hu)
  exact ⟨_, hboth, .append hc hl hr hcut (mergeFront_arranged hc hl₁ hr₁ hls₁ hrs₁)
    (.append hc hxt hyu hcut' hmiddle hback)⟩

-- On a test that goes round in a circle the ends need not meet.
omit hc in
example : mergeBoth (fun x y : Nat => y == (x + 1) % 3) [0, 1] [1, 0] = none := rfl

/-- **A short list is arranged**, by merging its halves. -/
theorem short_arranges : Arranges less s (short less) := by
  intro items hitems
  rw [short]
  split
  · next hfew =>
    exact ⟨items, rfl, .of_ordered hitems (ordered_of_length_le_one (Nat.le_of_lt_succ hfew))⟩
  · have hfirst := half_arranged hc (8 ≤ items.length)
      (fun x hx => hitems x (List.mem_of_mem_take (i := items.length / 2) hx))
    have hsecond := half_arranged hc (8 ≤ items.length)
      (fun x hx => hitems x (List.mem_of_mem_drop (i := items.length / 2) hx))
    obtain ⟨out, hout, harranged⟩ := mergeBoth_arranged hc hfirst.ordered hsecond.ordered
      hfirst.out_within hsecond.out_within (by
        rw [hfirst.perm.length_eq, hsecond.perm.length_eq, List.length_take, List.length_drop]
        omega)
    have hmerged := Arranged.of_append hfirst hsecond harranged
    rw [List.take_append_drop] at hmerged
    exact ⟨out, hout, hmerged⟩

end

end LayeredStore.Sorting
