import LayeredStore.Condition.Token

/-! # Clauses

A clause is a condition in text form:

    or         := and (OR and)*
    and        := unary (AND unary)*
    unary      := NOT unary | ( or ) | comparison
    comparison := field operator parameter | field IN ( parameter )

It is read one token at a time.  A `Reading` holds the groups that are open, what is
complete in each of them, and what may come next; `Reading.step` takes a token, so a
reading always tells which tokens can follow and `Reading.finish` whether the text may
stop.  A conjunction or disjunction of one part is that part, parentheses leave no node,
and at most `maxDepth` groups and negations are open at any place; the parentheses
around a membership argument do not count.
-/
namespace LayeredStore

/-- One operand itself, several joined. -/
def Condition.joinWith (join : List Condition → Condition) : List Condition → Condition
  | [part] => part
  | parts => join parts

@[simp] theorem Condition.joinWith_singleton (join : List Condition → Condition) (c : Condition) :
    joinWith join [c] = c := rfl

@[simp] theorem Condition.joinWith_cons_cons (join : List Condition → Condition)
    (c d : Condition) (cs : List Condition) :
    joinWith join (c :: d :: cs) = join (c :: d :: cs) := rfl

/-- A group of a clause that is still open. -/
structure Group where
  /-- The finished conjunctions, the latest first. -/
  alternatives : List Condition
  /-- The finished factors of the conjunction at hand, the latest first. -/
  factors : List Condition
  /-- The negations that wait for the next operand. -/
  negations : Nat
  deriving DecidableEq

namespace Group

/-- A group in which nothing has been read. -/
def empty : Group := ⟨[], [], 0⟩

/-- The conjunction of the factors read. -/
def conjunction (g : Group) : Condition := .joinWith .and g.factors.reverse

/-- The condition that the group stands for when it ends here. -/
def condition (g : Group) : Condition :=
  .joinWith .or (g.conjunction :: g.alternatives).reverse

/-- Negate a condition a number of times. -/
def negate : Nat → Condition → Condition
  | 0, c => c
  | n + 1, c => .not (negate n c)

/-- Complete an operand: the waiting negations apply to it. -/
def addOperand (g : Group) (c : Condition) : Group :=
  ⟨g.alternatives, negate g.negations c :: g.factors, 0⟩

/-- End the conjunction at hand. -/
def endConjunction (g : Group) : Group := ⟨g.conjunction :: g.alternatives, [], g.negations⟩

end Group

/-- What may come next in a clause. -/
inductive Expected
  /-- A negation, a group or a field. -/
  | operand
  /-- A comparison for the field. -/
  | operator (field : String)
  /-- The argument of a comparison. -/
  | argument (field : String) (op : Operator)
  /-- The argument in the parentheses of a membership test. -/
  | enclosed (field : String)
  /-- The parenthesis that ends a membership test. -/
  | enclosure (leaf : Condition)
  /-- A connective, the end of a group or the end of the clause. -/
  | connective
  deriving DecidableEq

/-- How far a clause has been read. -/
structure Reading where
  /-- The innermost open group. -/
  group : Group
  /-- The groups around it, the innermost first. -/
  outer : List Group
  /-- What may come next. -/
  expected : Expected
  deriving DecidableEq

namespace Reading

/-- Nothing has been read. -/
def start : Reading := ⟨.empty, [], .operand⟩

/-- How many groups and negations are open. -/
def depth (r : Reading) : Nat := depthFrom r.group.negations r.outer
where
  /-- The same, counted on from what is open inside the given groups. -/
  depthFrom (inside : Nat) : List Group → Nat
    | [] => inside
    | g :: rest => depthFrom (inside + 1 + g.negations) rest

/-- Complete an operand of the innermost group. -/
def deliver (r : Reading) (c : Condition) : Reading :=
  ⟨r.group.addOperand c, r.outer, .connective⟩

/-- Read one more token. -/
def step (r : Reading) (t : Token) : Except ClauseFault Reading :=
  match r.expected with
  | .operand =>
    match t with
    | .not =>
      if r.depth < maxDepth then
        .ok { r with group := { r.group with negations := r.group.negations + 1 } }
      else .error .tooDeep
    | .opening =>
      if r.depth < maxDepth then .ok ⟨.empty, r.group :: r.outer, .operand⟩
      else .error .tooDeep
    | .identifier field => .ok { r with expected := .operator field }
    | t => .error (.notField t)
  | .operator field =>
    match t with
    | .op op => .ok { r with expected := .argument field op }
    | t => .error (.notOperator field t)
  | .argument field op =>
    if op = .isIn ∧ t = .opening then .ok { r with expected := .enclosed field }
    else
      match t.key? with
      | some key => .ok (r.deliver (.leaf field op key))
      | none => .error (.notParameter t)
  | .enclosed field =>
    match t.key? with
    | some key => .ok { r with expected := .enclosure (.leaf field .isIn key) }
    | none => .error (.notParameter t)
  | .enclosure leaf =>
    match t with
    | .closing => .ok (r.deliver leaf)
    | t => .error (.notClosing t)
  | .connective =>
    match t, r.outer with
    | .and, _ => .ok { r with expected := .operand }
    | .or, _ => .ok { r with group := r.group.endConjunction, expected := .operand }
    | .closing, g :: gs => .ok (deliver ⟨g, gs, .connective⟩ r.group.condition)
    | t, [] => .error (.trailing t)
    | t, _ :: _ => .error (.notClosing t)

/-- End the clause here. -/
def finish (r : Reading) : Except Awaited Condition :=
  match r.expected, r.outer with
  | .connective, [] => .ok r.group.condition
  | .connective, _ :: _ => .error .closing
  | .operand, _ => .error .condition
  | .operator _, _ => .error .operator
  | .argument _ _, _ => .error .parameter
  | .enclosed _, _ => .error .parameter
  | .enclosure _, _ => .error .closing

/-- Read the tokens that are left and end the clause. -/
def run (r : Reading) : List (Nat × Token) → Except ClauseError Condition
  | [] =>
    match r.finish with
    | .ok c => .ok c
    | .error awaited => .error (.incomplete awaited)
  | (offset, t) :: rest =>
    match r.step t with
    | .ok r => r.run rest
    | .error fault => .error (.refused offset fault)

end Reading

/-- A condition read from text. -/
structure Clause where
  /-- The condition. -/
  condition : Condition
  /-- How many positional placeholders the text has. -/
  positional : Nat
  deriving DecidableEq

namespace Clause

/-- How many positional placeholders there are among tokens. -/
def countPlaceholders (tokens : List (Nat × Token)) : Nat :=
  tokens.countP fun e =>
    match e.2 with
    | .placeholder _ => true
    | _ => false

/-- Read a clause. -/
def ofText (text : String) : Except ClauseError Clause :=
  match Token.scan 0 0 text.toList with
  | .error e => .error e
  | .ok tokens =>
    match Reading.start.run tokens with
    | .error e => .error e
    | .ok condition => .ok ⟨condition, countPlaceholders tokens⟩

/-- Bind arguments to the positional placeholders; there must be one for each. -/
def bind (c : Clause) (args : List Value) : Except QueryError Bindings :=
  if args.length = c.positional then .ok (Bindings.positional args)
  else .error (.argumentCount c.positional args.length)

/-- Read a clause; a refusal is that of a query. -/
def parse (text : String) : Except QueryError Clause :=
  match ofText text with
  | .ok c => .ok c
  | .error e => .error e.toQueryError

/-- Read a clause and bind its arguments. -/
def compile (text : String) (args : List Value) : Except QueryError (Condition × Bindings) :=
  match parse text with
  | .error e => .error e
  | .ok c =>
    match c.bind args with
    | .error e => .error e
    | .ok bound => .ok (c.condition, bound)

end Clause

end LayeredStore
