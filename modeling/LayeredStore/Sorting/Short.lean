/-! # Sorting short lists

A sort is given by a test: whether one item is less than another.  The sorts here keep
items that are not less than each other in their places.

`insertion` puts one item after another into what is sorted already.  `short` is for lists
of up to `shortLength` items: it sorts two halves by insertion and merges them from both
ends at once.

Nothing is asked of the test.  Where it orders items consistently every sort gives the
same list; where it does not, the result is what the comparisons below make of it.  The
merge from both ends may then notice that its ends do not meet.  It gives no result in
that case, and nor does any sort that comes upon it: the program stops.
-/
namespace LayeredStore.Sorting

variable {α : Type} (less : α → α → Bool)

/-- Put an item into a list that is sorted from the last item to the first: behind every
item that it is not less than. -/
def insertLast (x : α) : List α → List α
  | [] => [x]
  | last :: before => if less x last then last :: insertLast x before else x :: last :: before

/-- Put items into a sorted list, one after another. -/
def insertAll (sorted items : List α) : List α :=
  (items.foldl (fun s x => insertLast less x s) sorted.reverse).reverse

/-- Sort by insertion. -/
def insertion (items : List α) : List α := insertAll less [] items

/-- Two items, the lesser first. -/
def pair (x y : α) : List α := if less y x then [y, x] else [x, y]

/-- Four items sorted by five comparisons: the lesser of two pairs' first items comes
first and the greater of their last items last. -/
def four (p q r s : α) : List α :=
  let (a, b) := if less q p then (q, p) else (p, q)
  let (c, d) := if less s r then (s, r) else (r, s)
  match less c a, less d b with
  | false, false => a :: (pair less b c ++ [d])
  | false, true => a :: (pair less c d ++ [b])
  | true, false => c :: (pair less a b ++ [d])
  | true, true => c :: (pair less a d ++ [b])

/-- Sort by insertion; of a long enough list the first four items are sorted on their own. -/
def half (byFour : Bool) : List α → List α
  | a :: b :: c :: d :: rest =>
    if byFour then insertAll less (four less a b c d) rest else insertion less (a :: b :: c :: d :: rest)
  | items => insertion less items

/-- Merge two sorted lists from the front. -/
def mergeFront (l r : List α) : List α := l.merge r fun x y => !less y x

/-- Merge two sorted lists from the back. -/
def mergeBack (l r : List α) : List α :=
  (r.reverse.merge l.reverse fun y x => !less y x).reverse

/-- The first `n` items of a merge by a test for the right item, with what is left of both
lists. -/
def mergeSome (right : α → α → Bool) : Nat → List α → List α → List α × List α × List α
  | n + 1, x :: l, y :: r =>
    if right x y then
      let (merged, l, r) := mergeSome right n (x :: l) r
      (y :: merged, l, r)
    else
      let (merged, l, r) := mergeSome right n l (y :: r)
      (x :: merged, l, r)
  | _, l, r => ([], l, r)

/-- Merge two sorted lists, the right one as long as the left one or longer by one: half
of the items from the front, half from the back, and the one between them from the list
that has not given all.  There is no result if the left list, and so the right one, has
not given each item once. -/
def mergeBoth (l r : List α) : Option (List α) :=
  let (front, l', r') := mergeSome (fun x y => less y x) l.length l r
  let (back, _, l'') := mergeSome (fun y x => less y x) l.length r.reverse l.reverse
  let (between, l') :=
    if r.length = l.length then ([], l')
    else if l.length < l'.length + l''.length then (l'.take 1, l'.drop 1)
    else (r'.take 1, l')
  if l'.length + l''.length = l.length then some (front ++ between ++ back.reverse) else none

/-- Up to how many items `short` is meant to sort. -/
def shortLength : Nat := 32

/-- Sort two halves and merge them. -/
def short (items : List α) : Option (List α) :=
  let n := items.length
  if n < 2 then some items
  else
    mergeBoth less (half less (8 ≤ n) (items.take (n / 2))) (half less (8 ≤ n) (items.drop (n / 2)))

end LayeredStore.Sorting
