import LayeredStore.Proofs.ClauseGrammar

/-! # Where a clause is refused

A refusal names the first place at which no clause can go on.  There is nothing a reading waits
for that cannot be given to it (`Reading.completion`): whatever has been read can be completed to
a clause, so a reading goes as far as the tokens are those of some clause
(`Grammar.extends_iff`).  The token that it refuses is then the first that no clause has there,
and a text that stops too early is one that some clause goes on from.

The offset of a token, or of a character that starts none, counts the bytes before it
(`Token.At`), so it is that of a character (`Clause.error_places`).
-/
namespace LayeredStore

/-! ### Offsets -/

namespace Token

/-- The byte offset is that of a character of a text which starts at another one. -/
def At (start : Nat) (text : List Char) (offset : Nat) : Prop :=
  ∃ before c after, text = before ++ c :: after ∧ offset = start + bytes before

variable {seen start offset : Nat} {text : List Char}

theorem bytes_append (text more : List Char) : bytes (text ++ more) = bytes text + bytes more := by
  induction text with
  | nil => exact (Nat.zero_add _).symm
  | cons c rest ih => rw [List.cons_append, bytes, bytes, ih, Nat.add_assoc]

theorem bytes_eq_utf8ByteSize (text : List Char) :
    bytes text = (String.ofList text).utf8ByteSize := by
  induction text with
  | nil => rfl
  | cons c rest ih => rw [bytes, ih, String.ofList_cons, String.utf8ByteSize_append,
      String.utf8ByteSize_singleton]

/-- The first character is at the start. -/
theorem At.first (c : Char) (rest : List Char) : At start (c :: rest) start :=
  ⟨[], c, rest, rfl, rfl⟩

/-- What is at a place behind a word is so with the word in front. -/
theorem At.behind (word : List Char) (h : At (start + bytes word) text offset) :
    At start (word ++ text) offset := by
  obtain ⟨before, c, after, rfl, rfl⟩ := h
  refine ⟨word ++ before, c, after, (List.append_assoc _ _ _).symm, ?_⟩
  rw [bytes_append, Nat.add_assoc]

theorem At.ge (h : At start text offset) : start ≤ offset := by
  obtain ⟨before, c, after, -, rfl⟩ := h
  exact Nat.le_add_right _ _

/-- Every token of a text is at a character of it, and in front of the tokens after it. -/
theorem scan_places {tokens : List (Nat × Token)} (h : scan seen start text = .ok tokens) :
    (∀ e ∈ tokens, At start text e.1) ∧ tokens.Pairwise fun e f => e.1 < f.1 := by
  fun_induction scan seen start text generalizing tokens with
  | case1 =>
    cases h
    exact ⟨nofun, .nil⟩
  | case2 seen start c rest hblank ih =>
    obtain ⟨hat, hascending⟩ := ih h
    exact ⟨fun e he => (hat e he).behind [c], hascending⟩
  | case3 => cases h
  | case4 => cases h
  | case5 seen start c rest hblank token word after hlexeme hlt tokens hscan ih =>
    cases h
    obtain ⟨hat, hascending⟩ := ih hscan
    refine ⟨List.forall_mem_cons.2 ⟨.first c rest, fun e he => ?_⟩,
      List.pairwise_cons.2 ⟨fun e he => ?_, hascending⟩⟩
    · rw [← lexeme_append hlexeme]
      exact (hat e he).behind (c :: word)
    · have := (hat e he).ge
      have := c.utf8Size_pos
      rw [bytes] at *
      omega

/-- Where a text starts no token there is a character of it. -/
theorem refused_place {fault : ClauseFault}
    (h : scan seen start text = .error (.refused offset fault)) : At start text offset := by
  fun_induction scan seen start text with
  | case1 => cases h
  | case2 seen start c rest hblank ih => exact (ih h).behind [c]
  | case3 =>
    cases h
    exact .first _ _
  | case4 seen start c rest hblank token word after hlexeme hlt e hscan ih =>
    cases h
    rw [← lexeme_append hlexeme]
    exact (ih hscan).behind (c :: word)
  | case5 => cases h

/-- What is no token is refused where it is. -/
theorem scan_ne_incomplete {awaited : Awaited} :
    scan seen start text ≠ .error (.incomplete awaited) := by
  fun_induction scan seen start text with
  | case2 _ _ _ _ _ ih => exact ih
  | case4 _ _ _ _ _ _ _ _ _ _ e hscan ih =>
    rintro h
    cases h
    exact ih hscan
  | _ => exact nofun

end Token

/-! ### Completing what has been read -/

/-- Tokens that end a comparison, given what may come next. -/
def Expected.completion : Expected → List Token
  | operand => [.identifier "field", .op .eq, .named "argument"]
  | operator _ => [.op .eq, .named "argument"]
  | argument _ _ => [.named "argument"]
  | enclosed _ => [.named "argument", .closing]
  | enclosure _ => [.closing]
  | connective => []

namespace Reading

/-- Tokens that end the clause: those that end the comparison, and a closing for each open group. -/
def completion (r : Reading) : List Token :=
  r.expected.completion ++ List.replicate r.outer.length .closing

theorem readAll_expected (r : Reading) :
    ∃ g, r.readAll r.expected.completion = .ok ⟨g, r.outer, .connective⟩ := by
  obtain ⟨g, gs, expected⟩ := r
  cases expected with
  | operand => exact ⟨_, rfl⟩
  | operator field => exact ⟨_, rfl⟩
  | argument field op =>
    rw [Expected.completion, (Step.argument rfl).readAll_cons]
    exact ⟨_, rfl⟩
  | enclosed field => exact ⟨_, rfl⟩
  | enclosure leaf => exact ⟨_, rfl⟩
  | connective => exact ⟨_, rfl⟩

theorem readAll_closings (g : Group) (gs : List Group) :
    ∃ g', readAll ⟨g, gs, .connective⟩ (List.replicate gs.length .closing) =
      .ok ⟨g', [], .connective⟩ := by
  induction gs generalizing g with
  | nil => exact ⟨g, rfl⟩
  | cons around gs ih =>
    rw [List.length_cons, List.replicate_succ, Step.closing.readAll_cons]
    exact ih _

/-- **Whatever has been read can be completed.** -/
theorem readAll_completion (r : Reading) :
    ∃ g, r.readAll r.completion = .ok ⟨g, [], .connective⟩ := by
  obtain ⟨g, hexpected⟩ := r.readAll_expected
  obtain ⟨g', hclosings⟩ := readAll_closings g r.outer
  exact ⟨g', (readAll_append hexpected _).trans hclosings⟩

/-- What is left to read, if it does not end here. -/
theorem completion_ne_nil {r : Reading} {awaited : Awaited} (h : r.finish = .error awaited) :
    r.completion ≠ [] := by
  obtain ⟨g, gs, expected⟩ := r
  unfold completion
  cases expected <;> cases gs <;> simp_all [finish, Expected.completion]

/-- A run is refused at the first token that takes no step. -/
theorem refused_at {r : Reading} {tokens : List (Nat × Token)} {offset : Nat} {fault : ClauseFault}
    (h : r.run tokens = .error (.refused offset fault)) :
    ∃ before t after r', tokens = before ++ (offset, t) :: after ∧
      r.readAll (before.map Prod.snd) = .ok r' ∧ r'.step t = .error fault := by
  induction tokens generalizing r with
  | nil =>
    unfold run at h
    split at h <;> cases h
  | cons e rest ih =>
    rw [run] at h
    split at h
    · next r₁ hstep =>
      obtain ⟨before, t, after, r', rfl, hread, hrefused⟩ := ih h
      refine ⟨e :: before, t, after, r', rfl, ?_, hrefused⟩
      rw [List.map_cons, readAll, hstep]
      exact hread
    · next hstep =>
      cases h
      exact ⟨[], e.2, rest, r, rfl, rfl, hstep⟩

/-- A run is incomplete when all its tokens are read and the clause does not end there. -/
theorem run_eq_incomplete_iff {r : Reading} {tokens : List (Nat × Token)} {awaited : Awaited} :
    r.run tokens = .error (.incomplete awaited) ↔
      ∃ r', r.readAll (tokens.map Prod.snd) = .ok r' ∧ r'.finish = .error awaited := by
  cases hread : r.readAll (tokens.map Prod.snd) with
  | error fault =>
    obtain ⟨offset, hrun⟩ := run_eq_of_readAll_error hread
    simp [hrun]
  | ok r' =>
    rw [run_eq_of_readAll hread, run]
    cases hfinish : r'.finish <;> simp [hfinish]

end Reading

/-! ### Beginnings of clauses -/

namespace Grammar

/-- The tokens are a clause. -/
def Accepted (ts : List Token) : Prop := ∃ c, Disjunction maxDepth ts c

variable {ts : List Token}

theorem accepted_iff_readAll :
    Accepted ts ↔ ∃ g, Reading.start.readAll ts = .ok ⟨g, [], .connective⟩ := by
  have htokens : (ts.map fun t => (0, t)).map Prod.snd = ts := by
    simp [List.map_map, Function.comp_def]
  constructor
  · rintro ⟨c, hc⟩
    rw [← htokens] at hc ⊢
    obtain ⟨g, hread, -⟩ := Reading.run_eq_ok_iff.1 hc.run
    exact ⟨g, hread⟩
  · rintro ⟨g, hread⟩
    rw [← htokens] at hread
    have hclause := disjunction_of_run (Reading.run_eq_ok_iff.2 ⟨g, hread, rfl⟩)
    rw [htokens] at hclause
    exact ⟨_, hclause⟩

/-- **Tokens begin a clause just if they can all be read.** -/
theorem extends_iff :
    (∃ more, Accepted (ts ++ more)) ↔ ∃ r, Reading.start.readAll ts = .ok r := by
  constructor
  · rintro ⟨more, haccepted⟩
    cases hread : Reading.start.readAll ts with
    | ok r => exact ⟨r, rfl⟩
    | error fault =>
      obtain ⟨g, hall⟩ := accepted_iff_readAll.1 haccepted
      rw [Reading.readAll_append_of_error hread] at hall
      cases hall
  · rintro ⟨r, hread⟩
    obtain ⟨g, hcompleted⟩ := r.readAll_completion
    exact ⟨r.completion,
      accepted_iff_readAll.2 ⟨g, (Reading.readAll_append hread _).trans hcompleted⟩⟩

/-- No clause has a token that takes no step. -/
theorem not_accepted_of_step {r : Reading} {t : Token} {fault : ClauseFault}
    (hread : Reading.start.readAll ts = .ok r) (hstep : r.step t = .error fault)
    (more : List Token) : ¬Accepted (ts ++ t :: more) := by
  intro haccepted
  obtain ⟨g, hall⟩ := accepted_iff_readAll.1 haccepted
  rw [Reading.readAll_append hread, Reading.readAll, hstep] at hall
  cases hall

/-- **A run is incomplete just if its tokens are a proper beginning of a clause, and no clause.** -/
theorem incomplete_iff {tokens : List (Nat × Token)} :
    (∃ awaited, Reading.start.run tokens = .error (.incomplete awaited)) ↔
      ¬Accepted (tokens.map Prod.snd) ∧
        ∃ more, more ≠ [] ∧ Accepted (tokens.map Prod.snd ++ more) := by
  constructor
  · rintro ⟨awaited, hrun⟩
    obtain ⟨r, hread, hfinish⟩ := Reading.run_eq_incomplete_iff.1 hrun
    refine ⟨fun haccepted => ?_, r.completion, Reading.completion_ne_nil hfinish, ?_⟩
    · obtain ⟨g, hall⟩ := accepted_iff_readAll.1 haccepted
      obtain rfl := Except.ok.inj (hread.symm.trans hall)
      cases hfinish
    · obtain ⟨g, hcompleted⟩ := r.readAll_completion
      exact accepted_iff_readAll.2 ⟨g, (Reading.readAll_append hread _).trans hcompleted⟩
  · rintro ⟨hnot, more, -, haccepted⟩
    obtain ⟨r, hread⟩ := extends_iff.1 ⟨more, haccepted⟩
    cases hfinish : r.finish with
    | error awaited => exact ⟨awaited, Reading.run_eq_incomplete_iff.2 ⟨r, hread, hfinish⟩⟩
    | ok c =>
      have hrun : Reading.start.run tokens = .ok c := by
        rw [Reading.run_eq_of_readAll hread, Reading.run, hfinish]
      exact absurd ⟨c, disjunction_of_run hrun⟩ hnot

end Grammar

/-! ### Errors of a text -/

namespace Clause

variable {text : String} {tokens : List (Nat × Token)}

theorem ofText_of_scan (h : Token.scan 0 0 text.toList = .ok tokens) {e : ClauseError} :
    ofText text = .error e ↔ Reading.start.run tokens = .error e := by
  rw [ofText, h]
  dsimp only
  cases Reading.start.run tokens <;> simp

theorem exists_fault_of_parse {offset : Nat} {reason : String}
    (h : parse text = .error (.parse offset reason)) :
    ∃ fault, ofText text = .error (.refused offset fault) := by
  unfold parse at h
  rcases hread : ofText text with (⟨at', fault⟩ | awaited) | c
  · rw [hread] at h
    cases h
    exact ⟨fault, rfl⟩
  · rw [hread] at h
    cases h
  · rw [hread] at h
    cases h

theorem exists_unexpectedEnd_iff :
    (∃ reason, parse text = .error (.unexpectedEnd reason)) ↔
      ∃ awaited, ofText text = .error (.incomplete awaited) := by
  unfold parse
  rcases ofText text with (⟨offset, fault⟩ | awaited) | c <;> simp [ClauseError.toQueryError]

/-- Tokens that start before one of them. -/
theorem filter_before {before after : List (Nat × Token)} {offset : Nat} {t : Token}
    (h : (before ++ (offset, t) :: after).Pairwise fun e f => e.1 < f.1) :
    (before ++ (offset, t) :: after).filter (fun e => e.1 < offset) = before := by
  obtain ⟨-, hafter, hbefore⟩ := List.pairwise_append.1 h
  have hpassed : before.filter (fun e => e.1 < offset) = before :=
    List.filter_eq_self.2 fun e he => by simpa using hbefore e he _ List.mem_cons_self
  have hleft : ((offset, t) :: after).filter (fun e => e.1 < offset) = [] := by
    refine List.filter_eq_nil_iff.2 (List.forall_mem_cons.2 ⟨by simp, fun e he => ?_⟩)
    have := List.rel_of_pairwise_cons hafter he
    simpa using Nat.le_of_lt this
  rw [List.filter_append, hpassed, hleft, List.append_nil]

/-- **Errors of a clause point at the first place that no clause has.**  A refusal of a text names
the byte offset of one of its characters.  If the text is made of tokens, one of them starts there:
the tokens before it begin some clause, and none goes on with it.  A text is called incomplete just
if its tokens are no clause, but some clause goes on from them. -/
theorem error_places (text : String) :
    (∀ offset reason, parse text = .error (.parse offset reason) →
      ∃ before c after, text = before ++ String.singleton c ++ after ∧
        offset = before.utf8ByteSize) ∧
    (∀ tokens offset reason, Token.scan 0 0 text.toList = .ok tokens →
      parse text = .error (.parse offset reason) →
      ∃ t, (offset, t) ∈ tokens ∧
        (∃ more, Grammar.Accepted
          ((tokens.filter fun e => e.1 < offset).map Prod.snd ++ more)) ∧
        ∀ more, ¬Grammar.Accepted
          ((tokens.filter fun e => e.1 < offset).map Prod.snd ++ t :: more)) ∧
    ((∃ reason, parse text = .error (.unexpectedEnd reason)) ↔
      ∃ tokens, Token.scan 0 0 text.toList = .ok tokens ∧
        ¬Grammar.Accepted (tokens.map Prod.snd) ∧
        ∃ more, more ≠ [] ∧ Grammar.Accepted (tokens.map Prod.snd ++ more)) := by
  refine ⟨fun offset reason hparse => ?_, fun tokens offset reason hscan hparse => ?_, ?_⟩
  · obtain ⟨fault, hfault⟩ := exists_fault_of_parse hparse
    have hat : Token.At 0 text.toList offset := by
      cases hscan : Token.scan 0 0 text.toList with
      | error e =>
        have hsame : ofText text = .error e := by rw [ofText, hscan]
        obtain rfl := Except.error.inj (hsame.symm.trans hfault)
        exact Token.refused_place hscan
      | ok tokens =>
        obtain ⟨before, t, after, r, rfl, -, -⟩ :=
          Reading.refused_at ((ofText_of_scan hscan).1 hfault)
        exact (Token.scan_places hscan).1 (offset, t) (by simp)
    obtain ⟨before, c, after, htext, rfl⟩ := hat
    refine ⟨.ofList before, c, .ofList after, ?_, ?_⟩
    · rw [← String.ofList_toList (s := text), htext, String.append_assoc, ← String.ofList_cons,
        ← String.ofList_append]
    · rw [Nat.zero_add, Token.bytes_eq_utf8ByteSize]
  · obtain ⟨fault, hfault⟩ := exists_fault_of_parse hparse
    obtain ⟨before, t, after, r, rfl, hread, hstep⟩ :=
      Reading.refused_at ((ofText_of_scan hscan).1 hfault)
    refine ⟨t, by simp, ?_⟩
    rw [filter_before (Token.scan_places hscan).2]
    exact ⟨Grammar.extends_iff.2 ⟨r, hread⟩, Grammar.not_accepted_of_step hread hstep⟩
  · rw [exists_unexpectedEnd_iff]
    constructor
    · rintro ⟨awaited, hincomplete⟩
      cases hscan : Token.scan 0 0 text.toList with
      | error e =>
        have hsame : ofText text = .error e := by rw [ofText, hscan]
        obtain rfl := Except.error.inj (hsame.symm.trans hincomplete)
        exact absurd hscan Token.scan_ne_incomplete
      | ok tokens =>
        exact ⟨tokens, rfl, Grammar.incomplete_iff.1
          ⟨awaited, (ofText_of_scan hscan).1 hincomplete⟩⟩
    · rintro ⟨tokens, hscan, hbeginning⟩
      obtain ⟨awaited, hrun⟩ := Grammar.incomplete_iff.2 hbeginning
      exact ⟨awaited, (ofText_of_scan hscan).2 hrun⟩

/-- A name after a whole comparison is the first place that no clause has. -/
theorem error_places_trailing :
    parse "é = ? b" = .error (.parse 7 "unexpected identifier 'b'") ∧
      ∃ before c after, "é = ? b" = before ++ String.singleton c ++ after ∧
        7 = before.utf8ByteSize := by
  have hparse : parse "é = ? b" = .error (.parse 7 "unexpected identifier 'b'") := by
    with_unfolding_all rfl
  exact ⟨hparse, (error_places "é = ? b").1 7 _ hparse⟩

end Clause

end LayeredStore
