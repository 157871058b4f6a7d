import LayeredStore.Condition.Clause
import LayeredStore.SortOrder

/-! # Queries

A query selects records by a condition with its arguments, puts them into an order and
cuts a page out of them.  Each part may be missing.
-/
namespace LayeredStore

/-- What to select, in which order, and which page of it. -/
structure Query where
  /-- The filter; without one every record is selected. -/
  condition? : Option Condition
  /-- The arguments of the filter. -/
  args : Bindings
  /-- The order; without one results stay as they were found. -/
  order? : Option SortOrder
  /-- How many results to skip. -/
  offset : Nat
  /-- How many results to give at most; zero means all. -/
  limit : Nat

namespace Query

/-- Select every record. -/
def all : Query := ⟨none, .empty, none, 0, 0⟩

/-- Select the records that satisfy a condition. -/
def filter (condition : Condition) (args : Bindings) : Query :=
  { all with condition? := some condition, args }

/-- Select the records that satisfy a clause with its arguments. -/
def ofClause (clause : String) (args : List Value) : Except QueryError Query :=
  match Clause.compile clause args with
  | .ok (condition, bound) => .ok (filter condition bound)
  | .error e => .error e

/-- Order the results. -/
def orderedBy (q : Query) (order : String) : Except QueryError Query :=
  match SortOrder.ofText order with
  | .ok o => .ok { q with order? := some o }
  | .error e => .error e

/-- Take a page of the results. -/
def page (q : Query) (offset limit : Nat) : Query := { q with offset, limit }

/-- A text without the blanks around it, if anything is left. -/
def nonBlank? (text? : Option String) : Option String :=
  (text?.map Text.trim).filter fun t => !t.isEmpty

/-- The query of a clause and an order in text; either may be missing or blank.  The
clause is read first. -/
def build (clause? : Option String) (args : List Value) (order? : Option String)
    (offset limit : Nat) : Except QueryError Query := do
  let selected ← match nonBlank? clause? with
    | some clause => ofClause clause args
    | none => .ok all
  let ordered ← match nonBlank? order? with
    | some order => selected.orderedBy order
    | none => .ok selected
  .ok (ordered.page offset limit)

/-- Whether a record passes the filter. -/
def accepts (q : Query) (r : Record) : Bool :=
  match q.condition? with
  | some c => c.test r q.args
  | none => true

/-- Order the records that passed and cut out the page. -/
def finish (q : Query) (records : List Record) : List Record :=
  let ordered := match q.order? with
    | some o => o.sort records
    | none => records
  window ordered q.offset q.limit

end Query

end LayeredStore
