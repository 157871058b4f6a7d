import LayeredStore.Value

/-! # Comparing values

Conditions and orderings compare values by different rules.  A condition may find two
values incomparable (`Value.compare?`); an ordering must place any two of them
(`Value.sortCompare`).  Both compare integers with integers exactly and blobs with
blobs byte by byte, prefer numbers to texts, and keep lists apart.
-/
namespace LayeredStore.Value

/-- The comparison that conditions use: as numbers where both sides are numbers, else
as texts where both have one. -/
def compare? : Value → Value → Option Ordering
  | .integer a, .integer b => some (compare a b)
  | .blob a, .blob b => some (compare a b)
  | .list _, _ => none
  | _, .list _ => none
  | a, b =>
    match a.number?, b.number? with
    | some x, some y => x.compare? y
    | _, _ =>
      match a.text?, b.text? with
      | some s, some t => some (compare s t)
      | _, _ => none

/-- Where a value stands among the kinds: numbers, other texts, blobs, lists. -/
def rank : Value → Nat
  | .list _ => 3
  | .blob _ => 2
  | v => if v.number?.isSome then 0 else 1

/-- Two optional texts, none being first. -/
def compareText : Option String → Option String → Ordering
  | none, none => .eq
  | none, some _ => .lt
  | some _, none => .gt
  | some s, some t => compare s t

/-- The comparison that orderings use: by rank, then as numbers, ties broken by text. -/
def sortCompare (a b : Value) : Ordering :=
  (compare a.rank b.rank).then <|
    match a, b with
    | .integer a, .integer b => compare a b
    | .blob a, .blob b => compare a b
    | .list a, .list b => compare a.length b.length
    | a, b =>
      let numeric := match a.number?, b.number? with
        | some x, some y => x.totalCompare y
        | _, _ => .eq
      numeric.then (compareText a.text? b.text?)

end LayeredStore.Value
