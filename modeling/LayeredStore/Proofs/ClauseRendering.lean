import LayeredStore.Proofs.ClauseGrammar
import LayeredStore.Proofs.ClauseLexing
import LayeredStore.Record.Names

/-! # Rendered conditions

`Condition.text` writes a condition as a clause.  A condition is `Renderable` when its names
can stand in a clause and no conjunction or disjunction of it is empty.  Its text is read as
`Condition.tokens` (`Renderable.lexes`), which derive its canonical form, one group or negation
for each inner node of the deepest path (`Renderable.unary`).  A reading that has no room for
them stops on the way (`Renderable.stopsTooDeep`), so the text is accepted if and only if
`Condition.nest` is at most `maxDepth`.  `Renderable.read_back` puts it together.
-/
namespace LayeredStore

namespace Condition

mutual
/-- How many inner nodes the deepest path has. -/
def nest : Condition → Nat
  | .compare .. => 0
  | .and parts => nestOf parts + 1
  | .or parts => nestOf parts + 1
  | .not part => part.nest + 1

/-- How many inner nodes the deepest path of a list of conditions has. -/
def nestOf : List Condition → Nat
  | [] => 0
  | part :: rest => max part.nest (nestOf rest)
end

mutual
/-- The condition with normal field names, in which each conjunction or disjunction of one
part is that part. -/
def canonical : Condition → Condition
  | .compare field op arg => .leaf field op arg
  | .and parts => joinWith .and (canonicalOf parts)
  | .or parts => joinWith .or (canonicalOf parts)
  | .not part => .not part.canonical

/-- The canonical forms of a list of conditions. -/
def canonicalOf : List Condition → List Condition
  | [] => []
  | part :: rest => part.canonical :: canonicalOf rest
end

mutual
/-- The tokens of the condition's text. -/
def tokens : Condition → List Token
  | .compare field op arg => [.identifier field, .op op, .named arg]
  | .and parts => .opening :: (tokensOf .and parts ++ [.closing])
  | .or parts => .opening :: (tokensOf .or parts ++ [.closing])
  | .not part => .not :: part.tokens

/-- The tokens of several conditions with a separator between them. -/
def tokensOf (separator : Token) : List Condition → List Token
  | [] => []
  | [part] => part.tokens
  | part :: rest => part.tokens ++ separator :: tokensOf separator rest
end

/-- A condition that has a clause text: its names can stand in a clause, and no conjunction
or disjunction is empty. -/
inductive Renderable : Condition → Prop
  | compare {field op arg} : Token.IsFieldName field → Token.IsKey arg →
      Renderable (.compare field op arg)
  | and {parts} : parts ≠ [] → (∀ c ∈ parts, Renderable c) → Renderable (.and parts)
  | or {parts} : parts ≠ [] → (∀ c ∈ parts, Renderable c) → Renderable (.or parts)
  | not {part} : Renderable part → Renderable (.not part)

/-! ### Canonical forms -/

theorem canonicalOf_eq_map (parts : List Condition) : canonicalOf parts = parts.map canonical := by
  induction parts with
  | nil => rfl
  | cons c cs ih => rw [canonicalOf, ih, List.map_cons]

theorem canonicalOf_eq_self {parts : List Condition} (h : ∀ c ∈ parts, c.canonical = c) :
    canonicalOf parts = parts := by
  rw [canonicalOf_eq_map, List.map_congr_left h, List.map_id']

section
variable (record : Record) (args : Bindings)

theorem test_joinWith_and (parts : List Condition) :
    (joinWith .and parts).test record args = (Condition.and parts).test record args := by
  match parts with
  | [] => rfl
  | [c] => simp [test, testAll]
  | _ :: _ :: _ => rfl

theorem test_joinWith_or (parts : List Condition) :
    (joinWith .or parts).test record args = (Condition.or parts).test record args := by
  match parts with
  | [] => rfl
  | [c] => simp [test, testAny]
  | _ :: _ :: _ => rfl

mutual
/-- **The canonical form is the same condition.** -/
theorem test_canonical : (c : Condition) → c.canonical.test record args = c.test record args
  | .compare field op arg => by
    rw [canonical, leaf, test, Record.field?_normalizeName, test]
  | .and parts => by
    rw [canonical, test_joinWith_and, test, test, testAll_canonicalOf parts]
    cases parts <;> rfl
  | .or parts => by
    rw [canonical, test_joinWith_or, test, test, testAny_canonicalOf parts]
  | .not part => by
    rw [canonical, test, test, test_canonical part]

theorem testAll_canonicalOf : (parts : List Condition) →
    testAll record args (canonicalOf parts) = testAll record args parts
  | [] => rfl
  | part :: rest => by
    rw [canonicalOf, testAll, testAll, test_canonical part, testAll_canonicalOf rest]

theorem testAny_canonicalOf : (parts : List Condition) →
    testAny record args (canonicalOf parts) = testAny record args parts
  | [] => rfl
  | part :: rest => by
    rw [canonicalOf, testAny, testAny, test_canonical part, testAny_canonicalOf rest]
end
end

/-! ### The text of a condition is read as its tokens -/

theorem tokensOf_cons (separator : Token) (part next : Condition) (rest : List Condition) :
    tokensOf separator (part :: next :: rest) =
      part.tokens ++ separator :: tokensOf separator (next :: rest) := rfl

theorem nest_le_nestOf {c : Condition} {parts : List Condition} (h : c ∈ parts) :
    c.nest ≤ nestOf parts := by
  induction parts with
  | nil => cases h
  | cons d rest ih =>
    rw [nestOf]
    rcases List.mem_cons.1 h with rfl | hrest
    · exact Nat.le_max_left _ _
    · exact Nat.le_trans (ih hrest) (Nat.le_max_right _ _)

theorem lexes_joined (separator word : String) (t : Token)
    (hseparator : separator.toList = ' ' :: (word.toList ++ [' ']))
    (hword : Token.Lexes word.toList [t]) {parts : List Condition} (hne : parts ≠ [])
    (h : ∀ c ∈ parts, Token.Lexes c.text.toList c.tokens) :
    Token.Lexes (joined separator parts).toList (tokensOf t parts) := by
  induction parts with
  | nil => exact absurd rfl hne
  | cons c rest ih =>
    have hc := h c List.mem_cons_self
    cases rest with
    | nil => exact hc
    | cons d rest =>
      have hrest := ih (List.cons_ne_nil d rest) fun e he => h e (List.mem_cons_of_mem c he)
      have := hc.followed (hword.followed hrest)
      simpa [joined, tokensOf, hseparator] using this

/-- **The text of a renderable condition is read as its tokens.** -/
theorem Renderable.lexes {c : Condition} (h : Renderable c) :
    Token.Lexes c.text.toList c.tokens := by
  induction h with
  | @compare field op arg hfield harg =>
    have := hfield.lexes.followed ((Token.lexes_symbol op).followed harg.lexes)
    simpa [text, tokens] using this
  | @and parts hne _ ih =>
    have hword : Token.IsWord "AND" := by decide
    have := (lexes_joined " AND " "AND" .and (by decide) hword.lexes hne ih).closing.opening
    simpa [text, tokens] using this
  | @or parts hne _ ih =>
    have hword : Token.IsWord "OR" := by decide
    have := (lexes_joined " OR " "OR" .or (by decide) hword.lexes hne ih).closing.opening
    simpa [text, tokens] using this
  | @not part _ ih =>
    have hword : Token.IsWord "NOT" := by decide
    have hnot : Token.Lexes "NOT".toList [.not] := hword.lexes
    have := hnot.followed ih
    simpa [text, tokens] using this

/-! ### The tokens derive the canonical form -/

/-- Parts with a separator between them derive a series of their canonical forms. -/
theorem series_tokensOf {separator : Token} {operand : List Token → Condition → Prop}
    {series : List Token → List Condition → Prop}
    (one : ∀ {ts c}, operand ts c → series ts [c])
    (more : ∀ {ts c us cs}, operand ts c → series us cs → series (ts ++ separator :: us) (c :: cs))
    {parts : List Condition} (hne : parts ≠ []) (h : ∀ c ∈ parts, operand c.tokens c.canonical) :
    series (tokensOf separator parts) (canonicalOf parts) := by
  induction parts with
  | nil => exact absurd rfl hne
  | cons c rest ih =>
    have hc := h c List.mem_cons_self
    cases rest with
    | nil => exact one hc
    | cons d rest =>
      exact more hc (ih (List.cons_ne_nil d rest) fun e he => h e (List.mem_cons_of_mem c he))

/-- **The text derives the canonical form**, with a group or negation to spend for each inner
node of the deepest path. -/
theorem Renderable.unary {c : Condition} (h : Renderable c) {d : Nat} (hnest : c.nest ≤ d) :
    Grammar.Unary d c.tokens c.canonical := by
  induction h generalizing d with
  | compare => exact .comparison (.plain rfl)
  | @and parts hne _ ih =>
    rw [nest] at hnest
    obtain ⟨d, rfl⟩ := Nat.exists_eq_add_one.2 (Nat.zero_lt_of_lt hnest)
    have hparts : ∀ c ∈ parts, Grammar.Unary d c.tokens c.canonical := fun c hc =>
      ih c hc (Nat.le_trans (nest_le_nestOf hc) (by omega))
    have hall : Grammar.Factors d (tokensOf .and parts) (canonicalOf parts) :=
      series_tokensOf .one .more hne hparts
    exact .group (.one hall.conjunction)
  | @or parts hne _ ih =>
    rw [nest] at hnest
    obtain ⟨d, rfl⟩ := Nat.exists_eq_add_one.2 (Nat.zero_lt_of_lt hnest)
    have hparts : ∀ c ∈ parts, Grammar.Conjunction d c.tokens c.canonical := fun c hc =>
      .one (ih c hc (Nat.le_trans (nest_le_nestOf hc) (by omega)))
    have hall : Grammar.Alternatives d (tokensOf .or parts) (canonicalOf parts) :=
      series_tokensOf .one .more hne hparts
    exact .group hall.disjunction
  | not _ ih =>
    rw [nest] at hnest
    obtain ⟨d, rfl⟩ := Nat.exists_eq_add_one.2 (Nat.zero_lt_of_lt hnest)
    exact .not (ih (by omega))

/-! ### Texts that are nested too deep -/

section
open Reading

/-- A reading stops in the text of the condition when that is nested too deep for it. -/
def StopsTooDeep (c : Condition) : Prop :=
  ∀ (g : Group) (gs : List Group), depth ⟨g, gs, .operand⟩ ≤ maxDepth →
    maxDepth < depth ⟨g, gs, .operand⟩ + c.nest →
    readAll ⟨g, gs, .operand⟩ c.tokens = .error .tooDeep

theorem readAll_of_full {g : Group} {gs : List Group} {t : Token}
    (hfull : ¬depth ⟨g, gs, .operand⟩ < maxDepth) (ht : t = .not ∨ t = .opening)
    (ts : List Token) : readAll ⟨g, gs, .operand⟩ (t :: ts) = .error .tooDeep := by
  rcases ht with rfl | rfl <;> simp only [readAll, step, hfull, if_false]

/-- The separator of a list of parts awaits the next part. -/
def Separates (separator : Token) : Prop :=
  ∀ (g : Group) (gs : List Group), g.negations = 0 → ∃ g' : Group, g'.negations = 0 ∧
    Step ⟨g, gs, .connective⟩ separator ⟨g', gs, .operand⟩

theorem separates_and : Separates .and := fun g _ hneg => ⟨g, hneg, .and⟩

theorem separates_or : Separates .or := fun g _ hneg => ⟨g.endConjunction, hneg, .or⟩

/-- Parts are read one after the other until one is nested too deep. -/
theorem tooDeep_tokensOf {separator : Token} (hseparator : Separates separator)
    {parts : List Condition} (hparts : ∀ c ∈ parts, Renderable c)
    (hstops : ∀ c ∈ parts, StopsTooDeep c) {g : Group} (gs : List Group) (hneg : g.negations = 0)
    (hinside : depth.depthFrom 0 gs ≤ maxDepth)
    (hdepth : maxDepth < depth.depthFrom 0 gs + nestOf parts) :
    readAll ⟨g, gs, .operand⟩ (tokensOf separator parts) = .error .tooDeep := by
  -- A part that fits is delivered, and the next one starts at the same depth in another group.
  induction parts generalizing g with
  | nil =>
    rw [nestOf] at hdepth
    omega
  | cons c rest ih =>
    have hc : maxDepth < depth.depthFrom 0 gs + c.nest →
        readAll ⟨g, gs, .operand⟩ c.tokens = .error .tooDeep := by
      rw [← hneg] at hinside ⊢
      exact hstops c List.mem_cons_self g gs hinside
    cases rest with
    | nil =>
      rw [nestOf, nestOf, Nat.max_zero] at hdepth
      exact hc hdepth
    | cons d rest =>
      rw [tokensOf_cons]
      rcases Nat.lt_or_ge maxDepth (depth.depthFrom 0 gs + c.nest) with hdeep | hfits
      · exact readAll_append_of_error (hc hdeep) _
      · have hunary := (hparts c List.mem_cons_self).unary (Nat.le_refl c.nest)
        have hread := hunary.reads g gs (by rw [depth_mk, hneg]; exact hfits)
        obtain ⟨g', hneg', hstep⟩ := hseparator (g.addOperand c.canonical) gs rfl
        have hrest : maxDepth < depth.depthFrom 0 gs + nestOf (d :: rest) := by
          rw [nestOf] at hdepth
          omega
        rw [readAll_append hread, hstep.readAll_cons]
        exact ih (fun e he => hparts e (List.mem_cons_of_mem c he))
          (fun e he => hstops e (List.mem_cons_of_mem c he)) hneg' hrest

/-- A group is too deep itself, or one of its parts is. -/
theorem tooDeep_group {separator : Token} (hseparator : Separates separator)
    {parts : List Condition} (hparts : ∀ c ∈ parts, Renderable c)
    (hstops : ∀ c ∈ parts, StopsTooDeep c) {g : Group} {gs : List Group}
    (hdepth : maxDepth < depth ⟨g, gs, .operand⟩ + (nestOf parts + 1)) :
    readAll ⟨g, gs, .operand⟩ (.opening :: (tokensOf separator parts ++ [.closing])) =
      .error .tooDeep := by
  by_cases hroom : depth ⟨g, gs, .operand⟩ < maxDepth
  · have hgroup : depth.depthFrom 0 (g :: gs) = depth ⟨g, gs, .operand⟩ + 1 := by
      rw [depth.depthFrom, depth_mk, depthFrom_eq, depthFrom_eq g.negations]
      omega
    rw [(Step.group hroom).readAll_cons]
    exact readAll_append_of_error
      (tooDeep_tokensOf hseparator hparts hstops (g :: gs) rfl (by omega) (by omega)) _
  · exact readAll_of_full hroom (.inr rfl) _

/-- **A text that is nested too deep is refused** where it is. -/
theorem Renderable.stopsTooDeep {c : Condition} (h : Renderable c) : StopsTooDeep c := by
  induction h with
  | compare =>
    intro g gs hinside hdepth
    rw [nest] at hdepth
    omega
  | and _ hparts ih =>
    intro g gs _ hdepth
    exact tooDeep_group separates_and hparts ih hdepth
  | or _ hparts ih =>
    intro g gs _ hdepth
    exact tooDeep_group separates_or hparts ih hdepth
  | @not part _ ih =>
    intro g gs _ hdepth
    rw [nest] at hdepth
    by_cases hroom : depth ⟨g, gs, .operand⟩ < maxDepth
    · have hnegation : depth ⟨⟨g.alternatives, g.factors, g.negations + 1⟩, gs, .operand⟩ =
          depth ⟨g, gs, .operand⟩ + 1 := by
        rw [depth_mk, depth_mk, depthFrom_eq, depthFrom_eq g.negations]
        show g.negations + 1 + _ = _
        omega
      rw [tokens, (Step.negation hroom).readAll_cons]
      exact ih _ gs (by omega) (by omega)
    · exact readAll_of_full hroom (.inl rfl) _

end

/-! ### Reading a text back -/

mutual
theorem tokens_noPlaceholder : (c : Condition) → ∀ t ∈ c.tokens, ∀ n, t ≠ .placeholder n
  | .compare .. => by simp [tokens]
  | .and parts => by
    have := tokensOf_noPlaceholder .and (by simp) parts
    simpa [tokens, or_imp, forall_and] using this
  | .or parts => by
    have := tokensOf_noPlaceholder .or (by simp) parts
    simpa [tokens, or_imp, forall_and] using this
  | .not part => by
    have := tokens_noPlaceholder part
    simpa [tokens] using this

theorem tokensOf_noPlaceholder (separator : Token) (hseparator : ∀ n, separator ≠ .placeholder n) :
    (parts : List Condition) → ∀ t ∈ tokensOf separator parts, ∀ n, t ≠ .placeholder n
  | [] => by simp [tokensOf]
  | [part] => tokens_noPlaceholder part
  | part :: next :: rest => by
    intro t ht
    rw [tokensOf_cons] at ht
    rcases List.mem_append.1 ht with hpart | hrest
    · exact tokens_noPlaceholder part t hpart
    rcases List.mem_cons.1 hrest with rfl | hrest
    · exact hseparator
    · exact tokensOf_noPlaceholder separator hseparator (next :: rest) t hrest
end

end Condition

namespace Clause

theorem countPlaceholders_eq_zero {located : List (Nat × Token)}
    (h : ∀ t ∈ located.map Prod.snd, ∀ n, t ≠ .placeholder n) : countPlaceholders located = 0 := by
  refine List.countP_eq_zero.2 fun e he => ?_
  have := h e.2 (List.mem_map_of_mem he)
  split
  · next n hn => exact absurd hn (this n)
  · decide

/-- A text of the grammar without placeholders is a clause. -/
theorem parse_of_lexes {text : String} {ts : List Token} {c : Condition}
    (hlexes : Token.Lexes text.toList ts) (hts : ∀ t ∈ ts, ∀ n, t ≠ .placeholder n)
    (hc : Grammar.Disjunction maxDepth ts c) : parse text = .ok ⟨c, 0⟩ := by
  obtain ⟨located, rfl, hscan⟩ := hlexes.scan_eq
  rw [parse, ofText, hscan]
  simp only [hc.run, countPlaceholders_eq_zero hts]

theorem parse_of_refused {text : String} {ts : List Token} {fault : ClauseFault}
    (hlexes : Token.Lexes text.toList ts) (hfault : Reading.start.readAll ts = .error fault) :
    ∃ offset, parse text = .error (.parse offset fault.message) := by
  obtain ⟨located, rfl, hscan⟩ := hlexes.scan_eq
  obtain ⟨offset, hrun⟩ := Reading.run_eq_of_readAll_error hfault
  refine ⟨offset, ?_⟩
  rw [parse, ofText, hscan]
  simp only [hrun, ClauseError.toQueryError]

end Clause

namespace Condition

theorem Renderable.parse_text {c : Condition} (h : Renderable c) (hnest : c.nest ≤ maxDepth) :
    Clause.parse c.text = .ok ⟨c.canonical, 0⟩ :=
  Clause.parse_of_lexes h.lexes c.tokens_noPlaceholder (.one (.one (h.unary hnest)))

theorem Renderable.parse_text_tooDeep {c : Condition} (h : Renderable c)
    (hnest : maxDepth < c.nest) :
    ∃ offset, Clause.parse c.text = .error (.parse offset ClauseFault.tooDeep.message) := by
  refine Clause.parse_of_refused h.lexes (h.stopsTooDeep .empty [] ?_ ?_)
  · exact Nat.zero_le maxDepth
  · show maxDepth < 0 + c.nest
    omega

/-- **Rendering a condition and reading it back is exact.** The text of a condition whose
names can stand in a clause, with nothing empty, is read back to its canonical form without
placeholders when at most `maxDepth` inner nodes are above any leaf; when more are, the text
is refused as nested too deep.  The canonical form holds of the same records. -/
theorem Renderable.read_back {c : Condition} (h : Renderable c) :
    (c.nest ≤ maxDepth → Clause.parse c.text = .ok ⟨c.canonical, 0⟩) ∧
      (maxDepth < c.nest →
        ∃ offset, Clause.parse c.text = .error (.parse offset ClauseFault.tooDeep.message)) ∧
      ∀ (record : Record) (args : Bindings), c.canonical.test record args = c.test record args :=
  ⟨h.parse_text, h.parse_text_tooDeep, fun record args => test_canonical record args c⟩

/-- A condition with a conjunction of one part and a name that is not normal. -/
theorem Renderable.read_back_single :
    Renderable (.or [.and [.compare "Num" .ge "min"], .not (.compare "str_val" .like "p")]) ∧
      Clause.parse "((Num >= :min) OR NOT str_val LIKE :p)" =
        .ok ⟨.or [.compare "num" .ge "min", .not (.compare "str_val" .like "p")], 0⟩ := by
  have h : Renderable
      (.or [.and [.compare "Num" .ge "min"], .not (.compare "str_val" .like "p")]) := by
    refine .or (by decide) (List.forall_mem_cons.2 ⟨?_, List.forall_mem_singleton.2 ?_⟩)
    · exact .and (by decide) (List.forall_mem_singleton.2 (.compare (by decide) (by decide)))
    · exact .not (.compare (by decide) (by decide))
  exact ⟨h, h.read_back.1 (by decide)⟩

end Condition
end LayeredStore
