import LayeredStore.QueryError
import LayeredStore.Record
import LayeredStore.Sorting.Long
import LayeredStore.Value.Comparison

/-! # Orders of results

A sort order is a list of fields with directions, `num ASC, name DESC` in text.  Records
are compared field by field; a record without the field comes before one with it, and
`DESC` turns both rules round.  Sorting is stable: records that compare equal stay in
the order in which they were found.

`window` cuts a page out of a list of results.
-/
namespace LayeredStore

/-- A field to sort by, with its direction. -/
structure SortTerm where
  /-- The field's normalised name. -/
  field : String
  /-- Whether greater values come first. -/
  descending : Bool
  deriving DecidableEq

namespace SortTerm

/-- Sort by a field in a direction. -/
def on (field : String) (descending : Bool) : SortTerm := ⟨normalizeName field, descending⟩

/-- Compare what two records hold under the field, a missing value being least. -/
def compareField (field : String) (a b : Record) : Ordering :=
  match a.field? field, b.field? field with
  | some x, some y => x.sortCompare y
  | none, some _ => .lt
  | some _, none => .gt
  | none, none => .eq

/-- Compare two records by this term. -/
def compare (t : SortTerm) (a b : Record) : Ordering :=
  if t.descending then (compareField t.field a b).swap else compareField t.field a b

/-- Read a term: a field, perhaps followed by a direction. -/
def ofWords? : List (List Char) → Option SortTerm
  | [field] => some (on (String.ofList field) false)
  | [field, direction] =>
    match Text.upper (String.ofList direction) with
    | "ASC" => some (on (String.ofList field) false)
    | "DESC" => some (on (String.ofList field) true)
    | _ => none
  | _ => none

/-- The term in text. -/
def text (t : SortTerm) : String := t.field ++ (if t.descending then " DESC" else " ASC")

end SortTerm

/-- An order of records: the first term decides, the next where it is undecided. -/
structure SortOrder where
  /-- The terms, the most significant first. -/
  terms : List SortTerm
  deriving DecidableEq

namespace SortOrder

/-- Compare two records by every term in turn. -/
def compare (o : SortOrder) (a b : Record) : Ordering :=
  o.terms.foldr (fun t rest => (t.compare a b).then rest) .eq

theorem compare_cons (t : SortTerm) (ts : List SortTerm) (a b : Record) :
    (⟨t :: ts⟩ : SortOrder).compare a b = (t.compare a b).then ((⟨ts⟩ : SortOrder).compare a b) :=
  rfl

/-- Whether one record comes before another. -/
def less (o : SortOrder) (a b : Record) : Bool := o.compare a b == .lt

/-- Sort records; equal ones keep their places.  There is no result where sorting notices
that the comparisons contradict one another. -/
def sort? (o : SortOrder) (records : List Record) : Option (List Record) :=
  Sorting.sort o.less records

/-- The sorted records.  Where sorting has no result the program stops, and what it would have
gone on with is of no account; here the records stay where they were. -/
def sort (o : SortOrder) (records : List Record) : List Record := (o.sort? records).getD records

/-- Read an order: terms with commas between them. -/
def ofText (text : String) : Except QueryError SortOrder :=
  match (Text.splitAt (· == ',') text.toList).mapM fun term => SortTerm.ofWords? (Text.words term) with
  | some terms => .ok ⟨terms⟩
  | none => .error (.invalidOrderBy text)

/-- The order in text. -/
def text (o : SortOrder) : String := ", ".intercalate (o.terms.map SortTerm.text)

end SortOrder

/-- Drop the first `offset` items and keep at most `limit` of the rest, all of them if
the limit is zero. -/
def window {α : Type} (items : List α) (offset limit : Nat) : List α :=
  if limit = 0 then items.drop offset else (items.drop offset).take limit

end LayeredStore
