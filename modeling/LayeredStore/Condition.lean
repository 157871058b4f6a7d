import LayeredStore.Condition.Like
import LayeredStore.Record
import LayeredStore.Value.Comparison

/-! # Conditions

A condition is a tree of comparisons between a record's field and a bound argument.
The leaves name the argument by a key, so one tree serves many argument bindings.
Evaluation never fails: a comparison whose field or argument is missing is false, and
so is an empty conjunction or disjunction.

`Condition.text` writes a tree as clause text with named placeholders, each conjunction
and disjunction in parentheses.
-/
namespace LayeredStore

/-- How a leaf compares a field with its argument. -/
inductive Operator
  | eq | ne | lt | le | gt | ge
  /-- The argument is a wildcard pattern for the field. -/
  | like
  /-- The field is one of the argument's items. -/
  | isIn
  deriving DecidableEq

namespace Operator

/-- The operators in the order of their declaration. -/
def all : List Operator := [.eq, .ne, .lt, .le, .gt, .ge, .like, .isIn]

/-- The operator in a clause. -/
def symbol : Operator → String
  | .eq => "="
  | .ne => "!="
  | .lt => "<"
  | .le => "<="
  | .gt => ">"
  | .ge => ">="
  | .like => "LIKE"
  | .isIn => "IN"

/-- Whether the operator holds between a field value and an argument.  Values that do
not compare are unequal, and no other comparison holds between them. -/
def holds (op : Operator) (value arg : Value) : Bool :=
  match op with
  | .eq => value.compare? arg == some .eq
  | .ne => value.compare? arg != some .eq
  | .lt => value.compare? arg == some .lt
  | .le => value.compare? arg == some .lt || value.compare? arg == some .eq
  | .gt => value.compare? arg == some .gt
  | .ge => value.compare? arg == some .gt || value.compare? arg == some .eq
  | .like =>
    match value.text?, arg.text? with
    | some text, some pattern => Like.isLike text pattern
    | _, _ => false
  | .isIn =>
    match arg with
    | .list items => items.any fun item => value.compare? item == some .eq
    | single => value.compare? single == some .eq

end Operator

/-- Arguments under the keys that conditions use. -/
abbrev Bindings := Dictionary String Value

/-- Arguments for positional placeholders, under the decimal keys `0`, `1`, … -/
def Bindings.positional (args : List Value) : Bindings :=
  Dictionary.ofList (args.zipIdx.map fun (v, i) => (toString i, v))

/-- A predicate on records. -/
inductive Condition
  /-- The field compares with the argument bound to the key. -/
  | compare (field : String) (op : Operator) (arg : String)
  /-- Every part holds, and there is one. -/
  | and (parts : List Condition)
  /-- Some part holds. -/
  | or (parts : List Condition)
  /-- The part does not hold. -/
  | not (part : Condition)

namespace Condition

instance : Inhabited Condition := ⟨.and []⟩

/-- A leaf on the normalised field name. -/
def leaf (field : String) (op : Operator) (arg : String) : Condition :=
  .compare (normalizeName field) op arg

mutual
/-- Equality of conditions is decidable. -/
def decEq : (a b : Condition) → Decidable (a = b)
  | .compare f o a, .compare g p b => decidable_of_iff (f = g ∧ o = p ∧ a = b) (by simp)
  | .and as, .and bs =>
    match decEqList as bs with
    | .isTrue h => .isTrue (congrArg _ h)
    | .isFalse h => .isFalse (by simpa using h)
  | .or as, .or bs =>
    match decEqList as bs with
    | .isTrue h => .isTrue (congrArg _ h)
    | .isFalse h => .isFalse (by simpa using h)
  | .not a, .not b =>
    match decEq a b with
    | .isTrue h => .isTrue (congrArg _ h)
    | .isFalse h => .isFalse (by simpa using h)
  | .compare .., .and _ | .compare .., .or _ | .compare .., .not _
  | .and _, .compare .. | .and _, .or _ | .and _, .not _
  | .or _, .compare .. | .or _, .and _ | .or _, .not _
  | .not _, .compare .. | .not _, .and _ | .not _, .or _ => .isFalse (by simp)

/-- Equality of lists of conditions is decidable. -/
def decEqList : (a b : List Condition) → Decidable (a = b)
  | [], [] => .isTrue rfl
  | [], _ :: _ => .isFalse (by simp)
  | _ :: _, [] => .isFalse (by simp)
  | a :: as, b :: bs =>
    match decEq a b, decEqList as bs with
    | .isTrue h, .isTrue h' => .isTrue (by rw [h, h'])
    | .isFalse h, _ => .isFalse (by simp [h])
    | _, .isFalse h => .isFalse (by simp [h])
end

instance : DecidableEq Condition := decEq

mutual
/-- Whether the record satisfies the condition under the bound arguments. -/
def test (record : Record) (args : Bindings) : Condition → Bool
  | .compare field op arg =>
    match record.field? field, args.get? arg with
    | some value, some bound => op.holds value bound
    | _, _ => false
  | .and parts => !parts.isEmpty && testAll record args parts
  | .or parts => testAny record args parts
  | .not part => !part.test record args

/-- Whether every condition of a list holds. -/
def testAll (record : Record) (args : Bindings) : List Condition → Bool
  | [] => true
  | part :: rest => part.test record args && testAll record args rest

/-- Whether some condition of a list holds. -/
def testAny (record : Record) (args : Bindings) : List Condition → Bool
  | [] => false
  | part :: rest => part.test record args || testAny record args rest
end

mutual
/-- The leaves from left to right. -/
def leaves : Condition → List (String × Operator × String)
  | .compare field op arg => [(field, op, arg)]
  | .and parts => leavesOf parts
  | .or parts => leavesOf parts
  | .not part => part.leaves

/-- The leaves of a list of conditions. -/
def leavesOf : List Condition → List (String × Operator × String)
  | [] => []
  | part :: rest => part.leaves ++ leavesOf rest
end

/-- Note a key behind those noted before, unless it is one of them. -/
def noteKey (noted : List String) (key : String) : List String :=
  if key ∈ noted then noted else noted ++ [key]

mutual
/-- Note the argument keys of the leaves, from left to right. -/
def noteArgKeys : Condition → List String → List String
  | .compare _ _ arg, noted => noteKey noted arg
  | .and parts, noted => noteArgKeysOf parts noted
  | .or parts, noted => noteArgKeysOf parts noted
  | .not part, noted => part.noteArgKeys noted

/-- Note the argument keys of a list of conditions. -/
def noteArgKeysOf : List Condition → List String → List String
  | [], noted => noted
  | part :: rest, noted => noteArgKeysOf rest (part.noteArgKeys noted)
end

/-- The argument keys of the leaves, each where it is first used. -/
def argKeys (c : Condition) : List String := c.noteArgKeys []

mutual
/-- The condition as clause text. -/
def text : Condition → String
  | .compare field op arg => field ++ " " ++ op.symbol ++ " :" ++ arg
  | .and parts => "(" ++ joined " AND " parts ++ ")"
  | .or parts => "(" ++ joined " OR " parts ++ ")"
  | .not part => "NOT " ++ part.text

/-- The texts of several conditions with a separator between them. -/
def joined (separator : String) : List Condition → String
  | [] => ""
  | [part] => part.text
  | part :: rest => part.text ++ separator ++ joined separator rest
end

theorem leavesOf_eq_flatMap (parts : List Condition) : leavesOf parts = parts.flatMap leaves := by
  induction parts with
  | nil => rfl
  | cons c cs ih => rw [leavesOf, ih, List.flatMap_cons]

end Condition

end LayeredStore
