import LayeredStore.Condition
import LayeredStore.QueryError
import LayeredStore.Text.Alphanumeric

/-! # Tokens of a clause

Clause text is a sequence of tokens with blanks between them.  Names are made of
alphanumeric characters, `_`, `.` and brackets; five words are keywords in any ASCII
case; there are no literals.  A placeholder `?` carries its number in reading order.

`Token.lexeme` takes one token off the front of a text and says which characters it
used (`lexeme_append`); `Token.scan` reads a whole text, giving each token the byte
offset at which it starts.
-/
namespace LayeredStore

/-- A word or sign of a clause. -/
inductive Token
  /-- A field name. -/
  | identifier (name : String)
  /-- A positional placeholder with its number. -/
  | placeholder (number : Nat)
  /-- A named parameter. -/
  | named (key : String)
  /-- A comparison. -/
  | op (op : Operator)
  /-- An opening parenthesis. -/
  | opening
  /-- A closing parenthesis. -/
  | closing
  | and
  | or
  | not
  deriving DecidableEq

namespace Token

/-- The argument key of a placeholder or parameter. -/
def key? : Token → Option String
  | placeholder number => some (toString number)
  | named key => some key
  | _ => none

/-- A token in an error message. -/
def describe : Token → String
  | identifier name => "identifier '" ++ name ++ "'"
  | placeholder number => "parameter ':" ++ toString number ++ "'"
  | named key => "parameter ':" ++ key ++ "'"
  | op o => "operator '" ++ o.symbol ++ "'"
  | opening => "'('"
  | closing => "')'"
  | and => "AND"
  | or => "OR"
  | not => "NOT"

end Token

/-- What makes a place of a clause unacceptable. -/
inductive ClauseFault
  /-- A colon without a parameter name. -/
  | parameterName
  /-- An exclamation mark without an equals sign. -/
  | loneBang
  /-- A digit where a name must start. -/
  | literal
  /-- A character that starts no token. -/
  | character (c : Char)
  /-- More open groups and negations than allowed. -/
  | tooDeep
  /-- Another token than a field name, a group or a negation. -/
  | notField (found : Token)
  /-- Another token than a comparison after a field. -/
  | notOperator (field : String) (found : Token)
  /-- Another token than a parameter after a comparison. -/
  | notParameter (found : Token)
  /-- Another token than the closing parenthesis. -/
  | notClosing (found : Token)
  /-- A token after a whole condition. -/
  | trailing (found : Token)
  deriving DecidableEq

/-- How many groups and negations may be open at once. -/
def maxDepth : Nat := 64

/-- The wording of a fault. -/
def ClauseFault.message : ClauseFault → String
  | parameterName => "expected parameter name after ':'"
  | loneBang => "expected '=' after '!'"
  | literal => "literals are not supported; bind values with '?' or ':name'"
  | character c => "unexpected character '" ++ String.singleton c ++ "'"
  | tooDeep => "nesting deeper than " ++ toString maxDepth ++ " levels"
  | notField found => "expected a field name, found " ++ found.describe
  | notOperator field found =>
    "expected an operator after '" ++ field ++ "', found " ++ found.describe
  | notParameter found => "expected '?' or ':name', found " ++ found.describe
  | notClosing found => "expected ')', found " ++ found.describe
  | trailing found => "unexpected " ++ found.describe

/-- What must follow where a clause stops too early. -/
inductive Awaited
  | condition
  | operator
  | parameter
  | closing
  deriving DecidableEq

/-- The wording of what must follow. -/
def Awaited.message : Awaited → String
  | condition => "expected a condition"
  | operator => "expected an operator"
  | parameter => "expected a parameter"
  | closing => "expected ')'"

/-- Why a clause is refused. -/
inductive ClauseError
  /-- The text cannot go on as it does at a byte offset. -/
  | refused (offset : Nat) (fault : ClauseFault)
  /-- The text stops where something must follow. -/
  | incomplete (awaited : Awaited)
  deriving DecidableEq

/-- The refusal of a clause as the refusal of a query. -/
def ClauseError.toQueryError : ClauseError → QueryError
  | refused offset fault => .parse offset fault.message
  | incomplete awaited => .unexpectedEnd awaited.message

namespace Token

/-- Whether `c` may occur in a field name. -/
def isNameChar (c : Char) : Bool :=
  Text.isAlphanumeric c || c == '_' || c == '.' || c == '[' || c == ']'

/-- Whether `c` may occur in a parameter name. -/
def isKeyChar (c : Char) : Bool := Text.isAlphanumeric c || c == '_'

/-- The token of a word: a keyword or a field name. -/
def ofWord (word : String) : Token :=
  match Text.upper word with
  | "AND" => and
  | "OR" => or
  | "NOT" => not
  | "LIKE" => op .like
  | "IN" => op .isIn
  | _ => identifier word

/-- The token that starts with `c` and goes on in `rest`, the further characters it
uses, and what is left.  `seen` placeholders came before. -/
def lexeme (seen : Nat) (c : Char) (rest : List Char) :
    Except ClauseFault (Token × List Char × List Char) :=
  match c with
  | '(' => .ok (opening, [], rest)
  | ')' => .ok (closing, [], rest)
  | '?' => .ok (placeholder seen, [], rest)
  | ':' =>
    let name := rest.takeWhile isKeyChar
    if name.isEmpty then .error .parameterName
    else .ok (named (String.ofList name), name, rest.dropWhile isKeyChar)
  | '=' =>
    match rest with
    | '=' :: after => .ok (op .eq, ['='], after)
    | _ => .ok (op .eq, [], rest)
  | '!' =>
    match rest with
    | '=' :: after => .ok (op .ne, ['='], after)
    | _ => .error .loneBang
  | '<' =>
    match rest with
    | '=' :: after => .ok (op .le, ['='], after)
    | '>' :: after => .ok (op .ne, ['>'], after)
    | _ => .ok (op .lt, [], rest)
  | '>' =>
    match rest with
    | '=' :: after => .ok (op .ge, ['='], after)
    | _ => .ok (op .gt, [], rest)
  | c =>
    if isNameChar c then
      if c.isDigit then .error .literal
      else
        let word := rest.takeWhile isNameChar
        .ok (ofWord (String.ofList (c :: word)), word, rest.dropWhile isNameChar)
    else .error (.character c)

/-- **A lexeme loses nothing.** The characters used and what is left are the text. -/
theorem lexeme_append {seen : Nat} {c : Char} {rest word after : List Char} {t : Token}
    (h : lexeme seen c rest = .ok (t, word, after)) : word ++ after = rest := by
  unfold lexeme at h
  split at h
  all_goals try dsimp only at h
  all_goals repeat' split at h
  all_goals simp only [reduceCtorEq, Except.ok.injEq, Prod.mk.injEq] at h
  all_goals
    obtain ⟨-, rfl, rfl⟩ := h
    simp [List.takeWhile_append_dropWhile]

/-- How many bytes characters take. -/
def bytes : List Char → Nat
  | [] => 0
  | c :: rest => c.utf8Size + bytes rest

/-- The tokens of a text with the byte offsets at which they start; the text starts at
`offset`, after `seen` placeholders. -/
def scan (seen offset : Nat) (text : List Char) :
    Except ClauseError (List (Nat × Token)) :=
  match text with
  | [] => .ok []
  | c :: rest =>
    if Text.isBlank c then scan seen (offset + c.utf8Size) rest
    else
      match h : lexeme seen c rest with
      | .error fault => .error (.refused offset fault)
      | .ok (token, word, after) =>
        have : after.length < (c :: rest).length := by
          have := congrArg List.length (lexeme_append h)
          simp only [List.length_append, List.length_cons] at this ⊢
          omega
        match scan (if c = '?' then seen + 1 else seen) (offset + bytes (c :: word)) after with
        | .error e => .error e
        | .ok tokens => .ok ((offset, token) :: tokens)
termination_by text.length
decreasing_by
  · exact Nat.lt_succ_self rest.length
  · exact this

end Token

end LayeredStore
