import LayeredStore.Proofs.ClauseGrammar
import LayeredStore.Proofs.ClauseLexing
import Mathlib.Data.List.Nodup

/-! # Placeholders meet their own arguments

The parameters of a clause can be told from its text alone: every question mark is a placeholder,
and every colon starts a name (`Parameter.ofText`).  The tokens of the text carry these parameters
in their order (`Token.scan_parameters`), reading carries them on to the leaves of the condition
(`Grammar.Disjunction.leafKeys_eq`), and the arguments of a clause are bound under the numbers that
the placeholders were given (`Bindings.get?_positional`).  So a placeholder is compared with the
argument that has as many arguments before it as there are placeholders before the placeholder
(`Clause.parameters_bound`).
-/
namespace LayeredStore

/-- What stands for an argument in the text of a clause. -/
inductive Parameter
  /-- A question mark. -/
  | placeholder
  /-- A name after a colon. -/
  | named (name : String)
  deriving DecidableEq

namespace Parameter

/-- The parameters of a text from left to right. -/
def ofText : List Char → List Parameter
  | [] => []
  | c :: rest =>
    if c = '?' then placeholder :: ofText rest
    else if c = ':' then named (String.ofList (rest.takeWhile Token.isKeyChar)) :: ofText rest
    else ofText rest

/-- The key of a parameter with so many placeholders before it. -/
def key (before : Nat) : Parameter → String
  | placeholder => toString before
  | named name => name

/-- The keys of parameters with so many placeholders before them. -/
def keys : Nat → List Parameter → List String
  | _, [] => []
  | before, p :: rest =>
    p.key before :: keys (if p = placeholder then before + 1 else before) rest

theorem ofText_question (rest : List Char) :
    ofText ('?' :: rest) = placeholder :: ofText rest := rfl

@[simp] theorem ofText_colon (rest : List Char) : ofText (':' :: rest) =
    named (String.ofList (rest.takeWhile Token.isKeyChar)) :: ofText rest := rfl

theorem ofText_cons {c : Char} (h : c ≠ '?' ∧ c ≠ ':') (rest : List Char) :
    ofText (c :: rest) = ofText rest := by
  rw [ofText, if_neg h.1, if_neg h.2]

/-- Characters that start no parameter can be left out. -/
theorem ofText_append {word : List Char} (h : ∀ c ∈ word, c ≠ '?' ∧ c ≠ ':') (rest : List Char) :
    ofText (word ++ rest) = ofText rest := by
  induction word with
  | nil => rfl
  | cons c word ih =>
    obtain ⟨hc, hword⟩ := List.forall_mem_cons.1 h
    rw [List.cons_append, ofText_cons hc, ih hword]

theorem count_placeholder_ofText (text : List Char) :
    (ofText text).count placeholder = text.count '?' := by
  induction text with
  | nil => rfl
  | cons c rest ih =>
    by_cases hquestion : c = '?'
    · subst hquestion
      rw [ofText_question, List.count_cons_self, List.count_cons_self, ih]
    · by_cases hcolon : c = ':'
      · subst hcolon
        simp [ih]
      · rw [ofText_cons ⟨hquestion, hcolon⟩, ih, List.count_cons_of_ne hquestion]

/-- The key at a place counts the placeholders before the place. -/
theorem getElem?_keys (before : Nat) (ps : List Parameter) (i : Nat) :
    (keys before ps)[i]? = ps[i]?.map (key (before + (ps.take i).count placeholder)) := by
  induction ps generalizing before i with
  | nil => rfl
  | cons p rest ih =>
    cases i with
    | zero => rfl
    | succ i =>
      rw [keys, List.getElem?_cons_succ, List.getElem?_cons_succ, List.take_succ_cons, ih]
      by_cases hp : p = placeholder
      · subst hp
        rw [if_pos rfl, List.count_cons_self, Nat.add_right_comm, Nat.add_assoc]
      · rw [if_neg hp, List.count_cons_of_ne hp]

/-- A placeholder is not among those before it. -/
theorem count_before_lt {ps : List Parameter} {i : Nat} (h : ps[i]? = some placeholder) :
    (ps.take i).count placeholder < ps.count placeholder := by
  obtain ⟨hi, hget⟩ := List.getElem?_eq_some_iff.1 h
  have hsplit : ps.take i ++ placeholder :: ps.drop (i + 1) = ps := by
    rw [← hget, ← List.drop_eq_getElem_cons hi, List.take_append_drop]
  calc (ps.take i).count placeholder
      < (ps.take i ++ placeholder :: ps.drop (i + 1)).count placeholder := by
        rw [List.count_append, List.count_cons_self]
        omega
    _ = ps.count placeholder := by rw [hsplit]

end Parameter

/-! ### Parameters among tokens -/

namespace Token

/-- The parameter that a token is. -/
def parameter? : Token → Option Parameter
  | placeholder _ => some .placeholder
  | named key => some (.named key)
  | _ => none

theorem isNameChar_starts_nothing {c : Char} (h : isNameChar c = true) : c ≠ '?' ∧ c ≠ ':' := by
  constructor <;> (rintro rfl; exact absurd h (by decide))

theorem isKeyChar_starts_nothing {c : Char} (h : isKeyChar c = true) : c ≠ '?' ∧ c ≠ ':' := by
  constructor <;> (rintro rfl; exact absurd h (by decide))

theorem parameter?_ofWord (word : String) :
    (ofWord word).parameter? = none ∧ (ofWord word).key? = none := by
  unfold ofWord
  split <;> exact ⟨rfl, rfl⟩

/-- A lexeme takes the first parameter of a text or none, and numbers it. -/
theorem lexeme_parameter {seen : Nat} {c : Char} {rest word after : List Char} {t : Token}
    (h : lexeme seen c rest = .ok (t, word, after)) :
    Parameter.ofText (c :: rest) = t.parameter?.toList ++ Parameter.ofText after ∧
      t.key? = t.parameter?.map (Parameter.key seen) ∧
      (t.parameter? = some .placeholder ↔ c = '?') := by
  have hrest := lexeme_append h
  -- Only the characters of names are many; what else a lexeme takes are single signs.
  have hkey : ∀ x ∈ rest.takeWhile isKeyChar, x ≠ '?' ∧ x ≠ ':' := fun x hx =>
    isKeyChar_starts_nothing (List.all_eq_true.1 List.all_takeWhile x hx)
  have hname : ∀ x ∈ rest.takeWhile isNameChar, x ≠ '?' ∧ x ≠ ':' := fun x hx =>
    isNameChar_starts_nothing (List.all_eq_true.1 List.all_takeWhile x hx)
  unfold lexeme at h
  split at h
  all_goals try dsimp only at h
  all_goals repeat' split at h
  all_goals simp only [reduceCtorEq, Except.ok.injEq, Prod.mk.injEq] at h
  all_goals obtain ⟨rfl, rfl, rfl⟩ := h
  case h_4.isFalse =>
    refine ⟨?_, rfl, by simp [parameter?]⟩
    rw [Parameter.ofText_colon, ← Parameter.ofText_append hkey (rest.dropWhile isKeyChar),
      List.takeWhile_append_dropWhile]
    rfl
  case h_9.isTrue.isFalse hc _ =>
    obtain ⟨hparameter, hkey?⟩ := parameter?_ofWord (String.ofList (c :: rest.takeWhile isNameChar))
    have hquestion := (isNameChar_starts_nothing hc).1
    refine ⟨?_, by rw [hkey?, hparameter]; rfl, by rw [hparameter]; simp [hquestion]⟩
    rw [Parameter.ofText_cons (isNameChar_starts_nothing hc), hparameter,
      ← Parameter.ofText_append hname (rest.dropWhile isNameChar),
      List.takeWhile_append_dropWhile]
    rfl
  all_goals exact ⟨rfl, rfl, by simp [parameter?]⟩

/-- **The tokens of a text carry its parameters**, and the placeholders among them are numbered
from left to right. -/
theorem scan_parameters {seen offset : Nat} {text : List Char} {tokens : List (Nat × Token)}
    (h : scan seen offset text = .ok tokens) :
    tokens.filterMap (·.2.parameter?) = Parameter.ofText text ∧
      tokens.filterMap (·.2.key?) = Parameter.keys seen (Parameter.ofText text) := by
  fun_induction scan seen offset text generalizing tokens with
  | case1 =>
    cases h
    exact ⟨rfl, rfl⟩
  | case2 seen offset c rest hblank ih =>
    have hc : c ≠ '?' ∧ c ≠ ':' := by
      constructor <;> (rintro rfl; exact absurd hblank (by decide))
    rw [Parameter.ofText_cons hc]
    exact ih h
  | case3 => cases h
  | case4 => cases h
  | case5 seen offset c rest hblank token word after hlexeme hlt tokens hscan ih =>
    cases h
    obtain ⟨hparameters, hkeys⟩ := ih hscan
    obtain ⟨htext, hkey, hplaceholder⟩ := lexeme_parameter hlexeme
    rw [htext, List.filterMap_cons, List.filterMap_cons, hparameters, hkeys, hkey]
    cases hp : token.parameter? with
    | none =>
      have hc : c ≠ '?' := fun heq => by simp [hplaceholder.2 heq] at hp
      rw [dif_neg hc]
      exact ⟨rfl, rfl⟩
    | some p =>
      have hsame : p = .placeholder ↔ c = '?' := by rw [← hplaceholder, hp, Option.some_inj]
      refine ⟨rfl, ?_⟩
      simp only [Option.map_some, Option.toList_some, List.singleton_append, Parameter.keys, hsame,
        dite_eq_ite]

end Token

theorem Clause.countPlaceholders_eq (tokens : List (Nat × Token)) :
    countPlaceholders tokens = (tokens.filterMap (·.2.parameter?)).count .placeholder := by
  rw [countPlaceholders, List.count_eq_countP, List.countP_filterMap]
  refine List.countP_congr fun e _ => ?_
  cases e.2 <;> simp [Token.parameter?]

/-! ### Parameters among leaves -/

namespace Condition

/-- The argument keys of the leaves from left to right, repetitions included. -/
def leafKeys (c : Condition) : List String := c.leaves.map (·.2.2)

theorem test_compare_of_bound {args : Bindings} {key : String} {arg : Value}
    (h : args.get? key = some arg) (record : Record) (field : String) (op : Operator) :
    test record args (.compare field op key) = (record.field? field).any (op.holds · arg) := by
  rw [test, h]
  cases record.field? field <;> rfl

theorem test_compare_of_unbound {args : Bindings} {key : String} (h : args.get? key = none)
    (record : Record) (field : String) (op : Operator) :
    test record args (.compare field op key) = false := by
  rw [test, h]
  cases record.field? field <;> rfl

theorem leafKeys_join {join : List Condition → Condition}
    (h : ∀ parts, (join parts).leaves = leavesOf parts) (parts : List Condition) :
    (join parts).leafKeys = parts.flatMap leafKeys := by
  rw [leafKeys, h, leavesOf_eq_flatMap, List.map_flatMap]
  rfl

end Condition

namespace Grammar

open Condition

theorem Comparison.leafKeys_eq {ts : List Token} {c : Condition} (h : Comparison ts c) :
    c.leafKeys = ts.filterMap Token.key? := by
  cases h with
  | plain hkey => rw [List.filterMap_cons_none rfl, List.filterMap_cons_none rfl,
      List.filterMap_cons_some hkey]; rfl
  | enclosed hkey => rw [List.filterMap_cons_none rfl, List.filterMap_cons_none rfl,
      List.filterMap_cons_none rfl, List.filterMap_cons_some hkey]; rfl

mutual
/-- **Reading carries the parameters to the leaves.** -/
theorem Disjunction.leafKeys_eq : ∀ {d : Nat} {ts : List Token} {c : Condition},
    Disjunction d ts c → c.leafKeys = ts.filterMap Token.key?
  | _, _, _, .one h => h.leafKeys_eq
  | _, _, _, .several h => (leafKeys_join (fun _ => rfl) _).trans h.leafKeys_eq

theorem Alternatives.leafKeys_eq : ∀ {d : Nat} {ts : List Token} {cs : List Condition},
    Alternatives d ts cs → cs.flatMap leafKeys = ts.filterMap Token.key?
  | _, _, _, .one h => by simpa using h.leafKeys_eq
  | _, _, _, .more h hs => by
    rw [List.flatMap_cons, h.leafKeys_eq, hs.leafKeys_eq, List.filterMap_append,
      List.filterMap_cons_none rfl]

theorem Conjunction.leafKeys_eq : ∀ {d : Nat} {ts : List Token} {c : Condition},
    Conjunction d ts c → c.leafKeys = ts.filterMap Token.key?
  | _, _, _, .one h => h.leafKeys_eq
  | _, _, _, .several h => (leafKeys_join (fun _ => rfl) _).trans h.leafKeys_eq

theorem Factors.leafKeys_eq : ∀ {d : Nat} {ts : List Token} {cs : List Condition},
    Factors d ts cs → cs.flatMap leafKeys = ts.filterMap Token.key?
  | _, _, _, .one h => by simpa using h.leafKeys_eq
  | _, _, _, .more h hs => by
    rw [List.flatMap_cons, h.leafKeys_eq, hs.leafKeys_eq, List.filterMap_append,
      List.filterMap_cons_none rfl]

theorem Unary.leafKeys_eq : ∀ {d : Nat} {ts : List Token} {c : Condition},
    Unary d ts c → c.leafKeys = ts.filterMap Token.key?
  | _, _, _, .not h => by
    rw [List.filterMap_cons_none rfl]
    exact h.leafKeys_eq
  | _, _, _, .group h => by
    rw [List.filterMap_cons_none rfl, List.filterMap_append, h.leafKeys_eq]
    exact (List.append_nil _).symm
  | _, _, _, .comparison h => h.leafKeys_eq
end

end Grammar

/-! ### Arguments -/

namespace Bindings

/-- A number is read off its text. -/
theorem digitsValue_toString : Function.LeftInverse (fun text => Numeral.digitsValue text.toList)
    (toString : Nat → String) :=
  fun n => (congrArg _ String.toList_ofList).trans (Numeral.digitsValue_toDigits n)

theorem nodup_positional (args : List Value) :
    ((args.zipIdx.map fun (v, i) => (toString i, v)).map Prod.fst).Nodup := by
  have hnumbers : (args.zipIdx.map fun (v, i) => (toString i, v)).map Prod.fst =
      (List.range' 0 args.length).map fun i => toString i := by
    rw [List.map_map, ← List.zipIdx_map_snd 0 args, List.map_map]
    rfl
  rw [hnumbers]
  exact List.Nodup.map digitsValue_toString.injective List.nodup_range'

/-- The arguments are bound under their numbers. -/
theorem get?_positional (args : List Value) (j : Nat) :
    (positional args).get? (toString j) = args[j]? := by
  unfold positional
  cases hj : args[j]? with
  | some v =>
    refine Dictionary.get?_ofList_of_mem (nodup_positional args) ?_
    exact List.mem_map.2 ⟨(v, j), List.mem_zipIdx_iff_getElem?.2 hj, rfl⟩
  | none =>
    refine Dictionary.get?_ofList_of_notMem fun hmem => ?_
    rw [List.map_map] at hmem
    obtain ⟨⟨v, i⟩, hv, hij⟩ := List.mem_map.1 hmem
    obtain rfl : i = j := digitsValue_toString.injective hij
    rw [List.mem_zipIdx_iff_getElem?.1 hv] at hj
    cases hj

/-- Nothing is bound under any other key. -/
theorem get?_positional_of_ne {args : List Value} {key : String}
    (h : ∀ j < args.length, key ≠ toString j) : (positional args).get? key = none := by
  refine Dictionary.get?_ofList_of_notMem fun hmem => ?_
  rw [List.map_map] at hmem
  obtain ⟨⟨v, i⟩, hv, hkey⟩ := List.mem_map.1 hmem
  obtain ⟨hi, -⟩ := List.getElem?_eq_some_iff.1 (List.mem_zipIdx_iff_getElem?.1 hv)
  exact h i hi hkey.symm

end Bindings

namespace Clause

/-- What a clause is read from: its parameters are those of the text. -/
theorem leafKeys_of_parse {text : String} {clause : Clause} (h : parse text = .ok clause) :
    clause.positional = (Parameter.ofText text.toList).count .placeholder ∧
      clause.condition.leafKeys = Parameter.keys 0 (Parameter.ofText text.toList) := by
  rw [parse, ofText] at h
  cases hscan : Token.scan 0 0 text.toList with
  | error e =>
    rw [hscan] at h
    cases h
  | ok tokens =>
    rw [hscan] at h
    cases hrun : Reading.start.run tokens with
    | error e =>
      simp only [hrun] at h
      cases h
    | ok c =>
      simp only [hrun] at h
      cases h
      obtain ⟨hparameters, hkeys⟩ := Token.scan_parameters hscan
      refine ⟨?_, ?_⟩
      · rw [← hparameters]
        exact countPlaceholders_eq tokens
      · rw [(Grammar.disjunction_of_run hrun).leafKeys_eq, List.filterMap_map, ← hkeys]
        rfl

/-- A leaf names its argument as the parameter at its place does. -/
theorem key_of_parse {text : String} {clause : Clause} (h : parse text = .ok clause) {i : Nat}
    {field key : String} {op : Operator}
    (hleaf : clause.condition.leaves[i]? = some (field, op, key)) {p : Parameter}
    (hp : (Parameter.ofText text.toList)[i]? = some p) :
    key = p.key (((Parameter.ofText text.toList).take i).count .placeholder) := by
  have hkey : clause.condition.leafKeys[i]? = some key := by
    rw [Condition.leafKeys, List.getElem?_map, hleaf]
    rfl
  rw [(leafKeys_of_parse h).2, Parameter.getElem?_keys, hp, Nat.zero_add] at hkey
  exact (Option.some.inj hkey).symm

theorem bind_ok_iff {clause : Clause} {args : List Value} {bound : Bindings} :
    clause.bind args = .ok bound ↔
      args.length = clause.positional ∧ Bindings.positional args = bound := by
  unfold bind
  split
  · simp [*]
  · simp [*]

/-- **Positional placeholders meet their own arguments.**  An accepted clause has one leaf for
every parameter of its text, in the order of the text: a placeholder is named by the number of
placeholders before it, any other parameter by its name.  Binding succeeds exactly if there is one
argument for every placeholder.  Then each number is bound to the argument at its place and
nothing else is bound, so the leaf of a placeholder compares the field with the argument of that
placeholder, and the leaf of a name that is no such number holds on no record. -/
theorem parameters_bound {text : String} {clause : Clause} (h : parse text = .ok clause) :
    clause.positional = text.toList.count '?' ∧
      clause.condition.leafKeys = Parameter.keys 0 (Parameter.ofText text.toList) ∧
      (∀ args, (∃ bound, clause.bind args = .ok bound) ↔ args.length = clause.positional) ∧
      ∀ args bound, clause.bind args = .ok bound →
        (∀ j, j < clause.positional →
          ∃ arg, args[j]? = some arg ∧ bound.get? (toString j) = some arg) ∧
        (∀ key, (∀ j, j < clause.positional → key ≠ toString j) → bound.get? key = none) ∧
        ∀ i field op key, clause.condition.leaves[i]? = some (field, op, key) →
          ((Parameter.ofText text.toList)[i]? = some .placeholder →
            ∃ arg, args[((Parameter.ofText text.toList).take i).count .placeholder]? = some arg ∧
              ∀ record, Condition.test record bound (.compare field op key) =
                (record.field? field).any (op.holds · arg)) ∧
          ∀ name, (Parameter.ofText text.toList)[i]? = some (.named name) →
            key = name ∧ ((∀ j, j < clause.positional → name ≠ toString j) →
              ∀ record, Condition.test record bound (.compare field op key) = false) := by
  obtain ⟨hcount, hkeys⟩ := leafKeys_of_parse h
  refine ⟨hcount.trans (Parameter.count_placeholder_ofText _), hkeys, fun args => ?_,
    fun args bound hbind => ?_⟩
  · simp only [bind_ok_iff, exists_and_left, exists_eq', and_true]
  obtain ⟨hlength, rfl⟩ := bind_ok_iff.1 hbind
  rw [← hlength]
  refine ⟨fun j hj => ⟨args[j], List.getElem?_eq_getElem hj, ?_⟩,
    fun key => Bindings.get?_positional_of_ne, fun i field op key hleaf => ⟨fun hp => ?_,
    fun name hp => ?_⟩⟩
  · rw [Bindings.get?_positional, List.getElem?_eq_getElem hj]
  · have hbefore : ((Parameter.ofText text.toList).take i).count .placeholder < args.length := by
      rw [hlength, hcount]
      exact Parameter.count_before_lt hp
    refine ⟨_, List.getElem?_eq_getElem hbefore, fun record => ?_⟩
    refine Condition.test_compare_of_bound ?_ record field op
    rw [key_of_parse h hleaf hp, Parameter.key, Bindings.get?_positional,
      List.getElem?_eq_getElem hbefore]
  · have hkey : key = name := key_of_parse h hleaf hp
    subst hkey
    exact ⟨rfl, fun hname record => Condition.test_compare_of_unbound
      (Bindings.get?_positional_of_ne hname) record field op⟩

/-- In a nested clause the second placeholder is met by the second argument, with a name between. -/
theorem parameters_bound_nested :
    ∃ clause, parse "a > ? AND (b LIKE :p OR NOT c IN (?))" = .ok clause ∧
      clause.condition.leafKeys = ["0", "p", "1"] ∧
      ∃ bound, clause.bind [.integer 5, .integer 7] = .ok bound ∧
        bound.get? "1" = some (.integer 7) ∧ bound.get? "p" = none := by
  have hread : (parse "a > ? AND (b LIKE :p OR NOT c IN (?))").toOption =
      some ⟨.and [.compare "a" .gt "0", .or [.compare "b" .like "p",
        .not (.compare "c" .isIn "1")]], 2⟩ := by decide +kernel
  cases h : parse "a > ? AND (b LIKE :p OR NOT c IN (?))" with
  | error e =>
    rw [h] at hread
    cases hread
  | ok clause =>
    rw [h] at hread
    obtain rfl := Option.some.inj hread
    obtain ⟨-, hkeys, hbind, hbound⟩ := parameters_bound h
    obtain ⟨bound, hb⟩ := (hbind [.integer 5, .integer 7]).2 rfl
    obtain ⟨hpositional, hother, -⟩ := hbound _ bound hb
    obtain ⟨arg, harg, hget⟩ := hpositional 1 (by decide)
    cases harg
    exact ⟨_, rfl, hkeys.trans (by decide +kernel), bound, hb, hget, hother "p" (by decide)⟩

end Clause
end LayeredStore
