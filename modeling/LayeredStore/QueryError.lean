/-! # What can be wrong with a query

The parts of a query are given as text, and each of them can be refused: a clause that
does not parse or stops too early, arguments that do not match its placeholders, an
ordering that is no ordering, a field type nobody knows.  `QueryError.message` is the
wording of each.
-/
namespace LayeredStore

/-- Why a query is refused. -/
inductive QueryError
  /-- The clause cannot go on at a byte offset. -/
  | parse (offset : Nat) (reason : String)
  /-- The clause stops where something must follow. -/
  | unexpectedEnd (awaited : String)
  /-- The number of arguments is not that of the positional placeholders. -/
  | argumentCount (expected got : Nat)
  /-- The ordering has a term that is not a field and a direction. -/
  | invalidOrderBy (text : String)
  /-- The name stands for no field type. -/
  | unknownType (name : String)
  deriving DecidableEq

/-- The wording of a refusal. -/
def QueryError.message : QueryError → String
  | .parse offset reason => "parse error at byte " ++ toString offset ++ ": " ++ reason
  | .unexpectedEnd awaited => "unexpected end of input: " ++ awaited
  | .argumentCount expected got =>
    "expected " ++ toString expected ++ " positional arguments, got " ++ toString got
  | .invalidOrderBy text => "invalid order by clause '" ++ text ++ "'"
  | .unknownType name => "unknown field type: " ++ name

end LayeredStore
