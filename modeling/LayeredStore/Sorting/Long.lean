import LayeredStore.Sorting.Short

/-! # Sorting long lists

`adaptive` cuts a list into runs and merges neighbours.  A stretch that is in order
already, or strictly in reverse, is a run if it is long enough (`goodLength`); elsewhere
a run is a piece that still has to be sorted.  Pieces that meet are joined and sorted
together by `quick`, as long as neither is sorted yet.  Which neighbours are merged first
is read off the places where they meet (`height`), so that the merges form a balanced
tree.

`quick` divides around a pivot, keeping the order on both sides.  After too many
divisions it gives up and leaves the list to `adaptive` with short sorted pieces.

`sort` takes insertion for a few items and `adaptive` for more.  Each of them is without a
result where a short sort is.
-/
namespace LayeredStore.Sorting

variable {α : Type} (less : α → α → Bool)

/-! ## Runs -/

/-- A stretch of a list, sorted or still to be sorted. -/
structure Run (α : Type) where
  /-- The items. -/
  items : List α
  /-- Whether they are sorted. -/
  sorted : Bool

/-- How many items continue a run that has `x` as its last item so far. -/
def continuing (continues : α → α → Bool) (x : α) : List α → Nat
  | [] => 0
  | y :: rest => if continues x y then continuing continues y rest + 1 else 0

/-- The run in order, or in reverse order, that a list starts with, and the rest. -/
def natural : List α → List α × List α
  | a :: b :: rest =>
    if less b a then
      let n := continuing (fun x y => less y x) b rest
      ((a :: b :: rest.take n).reverse, rest.drop n)
    else
      let n := continuing (fun x y => !less y x) b rest
      (a :: b :: rest.take n, rest.drop n)
  | items => (items, [])

/-- The first run of a list, and the rest.  Where no natural run is `good` enough, a piece
is taken; `eager` sorts it at once. -/
def firstRun (eager : Bool) (good : Nat) (items : List α) : Option (Run α × List α) :=
  let (run, rest) := natural less items
  if good ≤ run.length then some (⟨run, true⟩, rest)
  else if eager then do
    let piece ← short less (items.take shortLength)
    some (⟨piece, true⟩, items.drop shortLength)
  else some (⟨items.take good, false⟩, items.drop good)

/-- The runs of a list, at most as many as the bound. -/
def runsWithin (eager : Bool) (good : Nat) : Nat → List α → Option (List (Run α))
  | 0, _ => some []
  | _, [] => some []
  | bound + 1, items => do
    let (run, rest) ← firstRun less eager good items
    let runs ← runsWithin eager good bound rest
    some (run :: runs)

/-- A number close to the square root: one step towards it from a power of two. -/
def rootNear (n : Nat) : Nat :=
  let shift := (1 + Nat.log2 n) / 2
  ((1 <<< shift) + (n >>> shift)) / 2

/-- How long a natural run of a list of `n` items has to be. -/
def goodLength (n : Nat) : Nat :=
  if n ≤ 4096 then min (n - n / 2) 64 else rootNear n

/-! ## Merging runs -/

/-- The items of a run, sorted by `arrange` unless they are sorted. -/
def Run.settled (arrange : List α → Option (List α)) (r : Run α) : Option (List α) :=
  if r.sorted then some r.items else arrange r.items

/-- Merge two sorted lists from the end of the shorter one. -/
def mergeNear (l r : List α) : List α :=
  if l.length ≤ r.length then mergeFront less l r else mergeBack less l r

/-- Join two neighbours.  Two that are still to be sorted stay so. -/
def Run.join (arrange : List α → Option (List α)) (l r : Run α) : Option (Run α) :=
  if l.sorted || r.sorted then do
    let left ← l.settled arrange
    let right ← r.settled arrange
    some ⟨mergeNear less left right, true⟩
  else some ⟨l.items ++ r.items, false⟩

/-- How high in the tree of merges the runs from `start` and from `middle`, the latter up
to `stop`, meet in a list of `n` items: the highest binary place at which the middles of
the two runs differ. -/
def height (n start middle stop : Nat) : Nat :=
  let scale := (0x4000000000000000 + n - 1) / n
  Nat.log2 ((scale * (start + middle)) ^^^ (scale * (middle + stop)))

/-- Join a run with the runs before it that it meets at no more than a height; a run
before is listed with the height at which it meets the next. -/
def joinBelow (arrange : List α → Option (List α)) (h : Nat) :
    List (Run α × Nat) → Run α → Option (List (Run α × Nat) × Run α)
  | (left, k) :: before, r =>
    if k ≤ h then do joinBelow arrange h before (← left.join less arrange r)
    else some ((left, k) :: before, r)
  | [], r => some ([], r)

/-- Join a run with all runs before it. -/
def joinAll (arrange : List α → Option (List α)) (before : List (Run α × Nat)) (r : Run α) :
    Option (Run α) :=
  before.foldlM (fun r left => left.1.join less arrange r) r

/-- Join neighbours until one run is left: `run` starts at `start` in a list of `n` items,
with runs before and after it. -/
def joinRuns (arrange : List α → Option (List α)) (n : Nat) (before : List (Run α × Nat))
    (start : Nat) (run : Run α) : List (Run α) → Option (Run α)
  | [] => joinAll less arrange before run
  | next :: rest => do
    let middle := start + run.items.length
    let h := height n start middle (middle + next.items.length)
    let (before, run) ← joinBelow less arrange h before run
    joinRuns arrange n ((run, h) :: before) middle next rest

/-- Sort by merging runs; `arrange` sorts the pieces that no natural run covers. -/
def adaptive (arrange : List α → Option (List α)) (eager : Bool) (items : List α) :
    Option (List α) := do
  let n := items.length
  match ← runsWithin less eager (goodLength n) n items with
  | [] => some []
  | run :: rest => (← joinRuns less arrange n [] 0 run rest).settled arrange

/-! ## Dividing around a pivot -/

/-- Which of three places has the middle item, by three comparisons at most. -/
def median (get : Nat → α) (i j k : Nat) : Nat :=
  let first := less (get i) (get j)
  if first == less (get i) (get k) then (if less (get j) (get k) == first then j else k) else i

/-- The place of the pivot among `n` items from `start` on: the median of the pivots of
the first, the fifth and the last eighth. -/
def pivotPlace (get : Nat → α) (start n : Nat) : Nat :=
  if 8 ≤ n then
    median less get (pivotPlace get start (n / 8)) (pivotPlace get (start + n / 8 * 4) (n / 8))
      (pivotPlace get (start + n / 8 * 7) (n / 8))
  else start
termination_by n
decreasing_by all_goals omega

/-- Divide a list by a test; the item at `place` goes to the side that is told. -/
def divide (test : α → Bool) (place : Nat) (first : Bool) (items : List α) : List α × List α :=
  let before := items.take place
  let pivot := (items.drop place).take 1
  let after := items.drop (place + 1)
  (before.filter test ++ (if first then pivot else []) ++ after.filter test,
    before.filter (!test ·) ++ (if first then [] else pivot) ++ after.filter (!test ·))

/-- Sort by dividing, at most `limit` times in a row.  No item is less than `low?`, the
last pivot to the left.  Where the pivot is not greater than that, or nothing is less than
the pivot, the items not greater than the pivot are in place. -/
def quick : Nat → Option α → List α → Option (List α)
  | limit, low?, items =>
    if items.length ≤ shortLength then short less items
    else
      match limit, items with
      | 0, _ => adaptive less some true items
      | _, [] => some []
      | limit + 1, item :: _ => do
        let get := fun i => items.getD i item
        let place := pivotPlace less get 0 items.length
        let pivot := get place
        let (below, rest) := divide (fun x => less x pivot) place false items
        if low?.any (fun low => !less low pivot) || below.isEmpty then
          let (equal, rest) := divide (fun x => !less pivot x) place true items
          return equal ++ (← quick limit none rest)
        else return (← quick limit low? below) ++ (← quick limit (some pivot) rest)

/-- Sort by dividing, about as often as a balanced division needs twice over. -/
def arrange (items : List α) : Option (List α) :=
  quick less (2 * Nat.log2 items.length) none items

/-- Up to how many items are sorted by insertion. -/
def insertionLength : Nat := 20

/-- Sort a list; items of which none is less than the other keep their places. -/
def sort (items : List α) : Option (List α) :=
  if items.length ≤ insertionLength then some (insertion less items)
  else adaptive less (arrange less) (items.length ≤ 2 * shortLength) items

end LayeredStore.Sorting
