import LayeredStore.Proofs.ClauseReading

/-! # The grammar of clauses

The grammar says which token lists are clauses and which condition each of them is:

    or         := and (OR and)*
    and        := unary (AND unary)*
    unary      := NOT unary | ( or ) | comparison
    comparison := field operator parameter | field IN ( parameter )

A comparison is of the field's normalised name.  Operands with `OR` or `AND` between them are
joined, and one without is the condition itself.

A production carries the number of groups and negations that may be open inside it: a
negation or a group spends one.  `run_iff_disjunction` says that a reading accepts the
clauses of the grammar with `maxDepth` to spend, nothing else, and gives the condition of
the grammar.

Towards the grammar, `Reads` says of every reading which tokens brought it there: each open
group holds the operands of a production that is not finished (`Awaits`).  A step keeps it
(`Reads.step`), so a run keeps it (`Reads.readAll`).  From the grammar, a derivation is
followed: the reading of its tokens completes the operand (`Unary.reads`,
`Disjunction.reads`) and leaves the groups around it alone.
-/
namespace LayeredStore

namespace Grammar

/-- A comparison, of the field under its normalised name. -/
inductive Comparison : List Token → Condition → Prop
  | plain {f op t key} (hkey : t.key? = some key) :
      Comparison [.identifier f, .op op, t] (.compare (normalizeName f) op key)
  | enclosed {f t key} (hkey : t.key? = some key) :
      Comparison [.identifier f, .op .isIn, .opening, t, .closing]
        (.compare (normalizeName f) .isIn key)

mutual
/-- A disjunction: one conjunction itself, several joined. -/
inductive Disjunction : Nat → List Token → Condition → Prop
  | one {d ts c} : Conjunction d ts c → Disjunction d ts c
  | several {d ts c c' cs} : Alternatives d ts (c :: c' :: cs) →
      Disjunction d ts (.or (c :: c' :: cs))

/-- Conjunctions with `OR` between them. -/
inductive Alternatives : Nat → List Token → List Condition → Prop
  | one {d ts c} : Conjunction d ts c → Alternatives d ts [c]
  | more {d ts c us cs} : Conjunction d ts c → Alternatives d us cs →
      Alternatives d (ts ++ .or :: us) (c :: cs)

/-- A conjunction: one factor itself, several joined. -/
inductive Conjunction : Nat → List Token → Condition → Prop
  | one {d ts c} : Unary d ts c → Conjunction d ts c
  | several {d ts c c' cs} : Factors d ts (c :: c' :: cs) →
      Conjunction d ts (.and (c :: c' :: cs))

/-- Factors with `AND` between them. -/
inductive Factors : Nat → List Token → List Condition → Prop
  | one {d ts c} : Unary d ts c → Factors d ts [c]
  | more {d ts c us cs} : Unary d ts c → Factors d us cs →
      Factors d (ts ++ .and :: us) (c :: cs)

/-- A negation, a group or a comparison. -/
inductive Unary : Nat → List Token → Condition → Prop
  | not {d ts c} : Unary d ts c → Unary (d + 1) (.not :: ts) (.not c)
  | group {d ts c} : Disjunction d ts c → Unary (d + 1) (.opening :: (ts ++ [.closing])) c
  | comparison {d ts c} : Comparison ts c → Unary d ts c
end

/-- Conjunctions, however many, are a disjunction. -/
theorem Alternatives.disjunction {d : Nat} {ts : List Token} {cs : List Condition}
    (h : Alternatives d ts cs) : Disjunction d ts (.joinWith .or cs) := by
  match cs, h with
  | [_], .one hc => exact .one hc
  | _ :: _ :: _, h => exact .several h

/-- Factors, however many, are a conjunction. -/
theorem Factors.conjunction {d : Nat} {ts : List Token} {cs : List Condition}
    (h : Factors d ts cs) : Conjunction d ts (.joinWith .and cs) := by
  match cs, h with
  | [_], .one hc => exact .one hc
  | _ :: _ :: _, h => exact .several h

/-! ### Productions that are not finished -/

/-- Operands that a separator follows, each read; the latest first. -/
inductive Ended (operand : List Token → Condition → Prop) (separator : Token) :
    List Token → List Condition → Prop
  | nil : Ended operand separator [] []
  | next {ts cs us c} : Ended operand separator ts cs → operand us c →
      Ended operand separator (ts ++ us ++ [separator]) (c :: cs)

/-- The operands that ended go in front of those that follow. -/
theorem Ended.prepend {operand : List Token → Condition → Prop} {separator : Token}
    {series : List Token → List Condition → Prop}
    (more : ∀ {us c vs ds}, operand us c → series vs ds → series (us ++ separator :: vs) (c :: ds))
    {ts vs : List Token} {cs ds : List Condition} (h : Ended operand separator ts cs)
    (hs : series vs ds) : series (ts ++ vs) (cs.reverse ++ ds) := by
  induction h generalizing vs ds with
  | nil => exact hs
  | next _ hc ih =>
    have := ih (more hc hs)
    simpa only [List.append_assoc, List.singleton_append, List.reverse_cons] using this

/-- The tokens of a group up to an operand to come, with the negations before it. -/
inductive Before (d : Nat) (g : Group) : List Token → Prop
  | intro {ts us} : Ended (Conjunction d) .or ts g.alternatives →
      Ended (Unary d) .and us g.factors →
      Before d g (ts ++ us ++ List.replicate g.negations .not)

/-- The tokens of a group in which an operand has just been completed. -/
inductive After (d : Nat) (g : Group) : List Token → Prop
  | intro {ts us} : Ended (Conjunction d) .or ts g.alternatives →
      Factors d us g.factors.reverse → g.negations = 0 → After d g (ts ++ us)

/-- The tokens up to the innermost group, which may open `d` more; the given groups are
around it. -/
inductive Around : Nat → List Group → List Token → Prop
  | nil : Around maxDepth [] []
  | cons {d g gs ts us} : Around (d + 1 + g.negations) gs ts →
      Before (d + 1 + g.negations) g us → Around d (g :: gs) (ts ++ us ++ [.opening])

theorem Around.depthFrom {d : Nat} {gs : List Group} {ts : List Token} (h : Around d gs ts)
    (inside : Nat) : Reading.depth.depthFrom inside gs + d = inside + maxDepth := by
  induction h generalizing inside with
  | nil => rfl
  | @cons d g gs _ _ _ _ ih =>
    have := ih (inside + 1 + g.negations)
    rw [Reading.depth.depthFrom]
    omega

theorem Unary.negate {d : Nat} {ts : List Token} {c : Condition} (h : Unary d ts c) (n : Nat) :
    Unary (d + n) (List.replicate n .not ++ ts) (Group.negate n c) := by
  induction n with
  | zero => exact h
  | succ n ih => exact .not ih

theorem Before.empty (d : Nat) : Before d .empty [] := by
  have : Before d .empty ([] ++ [] ++ List.replicate 0 .not) := .intro .nil .nil
  exact this

theorem Before.negation {d : Nat} {g : Group} {ts : List Token} (h : Before d g ts) :
    Before d ⟨g.alternatives, g.factors, g.negations + 1⟩ (ts ++ [.not]) := by
  cases h with
  | intro has hfs =>
    rw [List.append_assoc, ← List.replicate_succ']
    exact .intro has hfs

theorem Before.addOperand {d : Nat} {g : Group} {ts us : List Token} {c : Condition}
    (h : Before (d + g.negations) g ts) (hc : Unary d us c) :
    After (d + g.negations) (g.addOperand c) (ts ++ us) := by
  cases h with
  | @intro as fs has hfs =>
    have hfactors : Factors (d + g.negations)
        (fs ++ (List.replicate g.negations .not ++ us)) (g.addOperand c).factors.reverse := by
      rw [Group.addOperand, List.reverse_cons]
      exact hfs.prepend .more (.one (hc.negate g.negations))
    rw [List.append_assoc, List.append_assoc]
    exact .intro has hfactors rfl

theorem After.negations {d : Nat} {g : Group} {ts : List Token} (h : After d g ts) :
    g.negations = 0 := by
  cases h with
  | intro _ _ hneg => exact hneg

theorem After.conjunction {d : Nat} {g : Group} {ts : List Token} (h : After d g ts) :
    ∃ as us, ts = as ++ us ∧ Ended (Conjunction d) .or as g.alternatives ∧
      Conjunction d us g.conjunction := by
  cases h with
  | intro has hfs _ => exact ⟨_, _, rfl, has, hfs.conjunction⟩

/-- A group that may end is a disjunction. -/
theorem After.condition {d : Nat} {g : Group} {ts : List Token} (h : After d g ts) :
    Disjunction d ts g.condition := by
  obtain ⟨as, us, rfl, has, hc⟩ := h.conjunction
  rw [Group.condition, List.reverse_cons]
  have hall : Alternatives d (as ++ us) (g.alternatives.reverse ++ [g.conjunction]) :=
    has.prepend .more (.one hc)
  exact hall.disjunction

/-- `OR` ends the conjunction at hand. -/
theorem After.or {d : Nat} {g : Group} {ts : List Token} (h : After d g ts) :
    Before d g.endConjunction (ts ++ [.or]) := by
  have hneg := h.negations
  obtain ⟨as, us, rfl, has, hc⟩ := h.conjunction
  have : Before d g.endConjunction (as ++ us ++ [.or] ++ [] ++
      List.replicate g.endConjunction.negations .not) := .intro (has.next hc) .nil
  simpa [Group.endConjunction, hneg] using this

/-- Each factor that an `AND` follows has ended. -/
theorem Factors.ended {d : Nat} {ts us : List Token} {cs ds : List Condition}
    (h : Factors d ts cs) (hs : Ended (Unary d) .and us ds) :
    Ended (Unary d) .and (us ++ ts ++ [.and]) (cs.reverse ++ ds) := by
  induction cs generalizing ts us ds with
  | nil => cases h
  | cons c cs ih =>
    cases h with
    | one hc => exact hs.next hc
    | more hc hcs =>
      have := ih hcs (hs.next hc)
      simpa [List.append_assoc] using this

/-- `AND` awaits another factor of the conjunction at hand. -/
theorem After.and {d : Nat} {g : Group} {ts : List Token} (h : After d g ts) :
    Before d g (ts ++ [.and]) := by
  cases h with
  | @intro as us has hfs hneg =>
    have hended := hfs.ended .nil
    rw [List.reverse_reverse, List.append_nil, List.nil_append] at hended
    have : Before d g (as ++ (us ++ [.and]) ++ List.replicate g.negations .not) :=
      .intro has hended
    simpa [hneg] using this

/-- What has been read of a comparison. -/
inductive Begun : Expected → List Token → Prop
  | operand : Begun .operand []
  | operator {f} : Begun (.operator f) [.identifier f]
  | argument {f op} : Begun (.argument f op) [.identifier f, .op op]
  | enclosed {f} : Begun (.enclosed f) [.identifier f, .op .isIn, .opening]
  | enclosure {f t key} (hkey : t.key? = some key) :
      Begun (.enclosure (.leaf f .isIn key)) [.identifier f, .op .isIn, .opening, t]

/-- The tokens up to an operand to come, before which `d` groups and negations may still
open. -/
inductive Awaits (d : Nat) (g : Group) (gs : List Group) : List Token → Prop
  | intro {ts us} : Around (d + g.negations) gs ts → Before (d + g.negations) g us →
      Awaits d g gs (ts ++ us)

/-- The tokens that bring a reading to where it is. -/
inductive Reads : Reading → List Token → Prop
  | within {d g gs expected ts us} : Awaits d g gs ts → Begun expected us →
      Reads ⟨g, gs, expected⟩ (ts ++ us)
  | after {d g gs ts us} : Around d gs ts → After d g us →
      Reads ⟨g, gs, .connective⟩ (ts ++ us)

theorem Awaits.depth {d : Nat} {g : Group} {gs : List Group} {ts : List Token}
    (h : Awaits d g gs ts) (expected : Expected) :
    Reading.depth ⟨g, gs, expected⟩ + d = maxDepth := by
  cases h with
  | intro haround _ =>
    have := haround.depthFrom g.negations
    rw [Reading.depth_mk]
    omega

theorem Awaits.exists_succ {d : Nat} {g : Group} {gs : List Group} {ts : List Token}
    {expected : Expected} (h : Awaits d g gs ts)
    (hdepth : Reading.depth ⟨g, gs, expected⟩ < maxDepth) : ∃ e, d = e + 1 := by
  have := h.depth expected
  exact ⟨d - 1, by omega⟩

/-- A negation spends one of what may open before the operand. -/
theorem Awaits.negation {d : Nat} {g : Group} {gs : List Group} {ts : List Token}
    (h : Awaits (d + 1) g gs ts) :
    Awaits d ⟨g.alternatives, g.factors, g.negations + 1⟩ gs (ts ++ [.not]) := by
  cases h with
  | intro haround hbefore =>
    rw [Nat.add_right_comm] at haround hbefore
    rw [List.append_assoc]
    exact .intro haround hbefore.negation

/-- A group spends one of what may open before the operand. -/
theorem Awaits.group {d : Nat} {g : Group} {gs : List Group} {ts : List Token}
    (h : Awaits (d + 1) g gs ts) : Awaits d .empty (g :: gs) (ts ++ [.opening]) := by
  cases h with
  | intro haround hbefore =>
    rw [← List.append_nil (_ ++ [Token.opening])]
    exact .intro (.cons haround hbefore) (.empty _)

/-- What is around a group is what awaited it. -/
theorem Around.awaits {d : Nat} {g : Group} {gs : List Group} {ts : List Token}
    (h : Around d (g :: gs) ts) : ∃ us, ts = us ++ [.opening] ∧ Awaits (d + 1) g gs us := by
  cases h with
  | cons haround hbefore => exact ⟨_, rfl, .intro haround hbefore⟩

theorem Awaits.reads {d : Nat} {g : Group} {gs : List Group} {ts : List Token}
    (h : Awaits d g gs ts) : Reads ⟨g, gs, .operand⟩ ts := by
  rw [← List.append_nil ts]
  exact .within h .operand

theorem Reads.awaits {g : Group} {gs : List Group} {ts : List Token}
    (h : Reads ⟨g, gs, .operand⟩ ts) : ∃ d, Awaits d g gs ts := by
  cases h with
  | within hawaits hbegun =>
    cases hbegun
    rw [List.append_nil]
    exact ⟨_, hawaits⟩

theorem Reads.completed {g : Group} {gs : List Group} {ts : List Token}
    (h : Reads ⟨g, gs, .connective⟩ ts) :
    ∃ d as us, ts = as ++ us ∧ Around d gs as ∧ After d g us := by
  cases h with
  | within _ hbegun => cases hbegun
  | after haround hafter => exact ⟨_, _, _, rfl, haround, hafter⟩

/-- A connective awaits the next operand. -/
theorem Awaits.of_before {d : Nat} {g : Group} {gs : List Group} {ts us : List Token}
    (haround : Around d gs ts) (hbefore : Before d g us) (hneg : g.negations = 0) :
    Awaits d g gs (ts ++ us) := by
  rw [← Nat.add_zero d, ← hneg] at haround hbefore
  exact .intro haround hbefore

/-- An operand completes the production that awaits it. -/
theorem Awaits.addOperand {d : Nat} {g : Group} {gs : List Group} {ts us : List Token}
    {c : Condition} (h : Awaits d g gs ts) (hc : Unary d us c) :
    Reads ⟨g.addOperand c, gs, .connective⟩ (ts ++ us) := by
  cases h with
  | intro haround hbefore =>
    rw [List.append_assoc]
    exact .after haround (hbefore.addOperand hc)

/-- **A step keeps what has been read.** -/
theorem Reads.step {r r' : Reading} {t : Token} {ts : List Token} (h : Reads r ts)
    (hstep : Reading.Step r t r') : Reads r' (ts ++ [t]) := by
  -- A step opens something, goes on with a comparison, completes an operand or awaits one.
  cases hstep with
  | negation hdepth =>
    obtain ⟨d, hawaits⟩ := h.awaits
    obtain ⟨d, rfl⟩ := hawaits.exists_succ hdepth
    exact hawaits.negation.reads
  | group hdepth =>
    obtain ⟨d, hawaits⟩ := h.awaits
    obtain ⟨d, rfl⟩ := hawaits.exists_succ hdepth
    exact hawaits.group.reads
  | field =>
    obtain ⟨d, hawaits⟩ := h.awaits
    exact .within hawaits .operator
  | operator =>
    cases h with
    | within hawaits hbegun =>
      cases hbegun
      rw [List.append_assoc]
      exact .within hawaits .argument
  | argument hkey =>
    cases h with
    | within hawaits hbegun =>
      cases hbegun
      rw [List.append_assoc]
      exact hawaits.addOperand (.comparison (.plain hkey))
  | opening =>
    cases h with
    | within hawaits hbegun =>
      cases hbegun
      rw [List.append_assoc]
      exact .within hawaits .enclosed
  | enclosed hkey =>
    cases h with
    | within hawaits hbegun =>
      cases hbegun
      rw [List.append_assoc]
      exact .within hawaits (.enclosure hkey)
  | enclosure =>
    cases h with
    | within hawaits hbegun =>
      cases hbegun with
      | enclosure hkey =>
        rw [List.append_assoc]
        exact hawaits.addOperand (.comparison (.enclosed hkey))
  | and =>
    obtain ⟨d, as, us, rfl, haround, hafter⟩ := h.completed
    rw [List.append_assoc]
    exact (Awaits.of_before haround hafter.and hafter.negations).reads
  | or =>
    obtain ⟨d, as, us, rfl, haround, hafter⟩ := h.completed
    rw [List.append_assoc]
    exact (Awaits.of_before haround hafter.or hafter.negations).reads
  | closing =>
    obtain ⟨d, as, us, rfl, haround, hafter⟩ := h.completed
    obtain ⟨as, rfl, hawaits⟩ := haround.awaits
    have := hawaits.addOperand (.group hafter.condition)
    simpa only [List.append_assoc, List.cons_append, List.nil_append] using this

/-- **A run keeps what has been read.** -/
theorem Reads.readAll {r r' : Reading} {ts us : List Token} (h : Reads r ts)
    (hread : r.readAll us = .ok r') : Reads r' (ts ++ us) := by
  induction us generalizing r ts with
  | nil =>
    cases hread
    rwa [List.append_nil]
  | cons t us ih =>
    rw [Reading.readAll] at hread
    split at hread
    · next hstep =>
      have := ih (h.step (Reading.step_eq_ok_iff.1 hstep)) hread
      rwa [List.append_assoc] at this
    · cases hread

theorem Reads.start : Reads .start [] := by
  have : Awaits maxDepth .empty [] ([] ++ []) := .of_before .nil (.empty maxDepth) rfl
  exact this.reads

/-! ### Following a derivation

What a reading does with the tokens of each production, when what may open in it fits into
the groups around. -/

section
open Reading

/-- The tokens complete an operand of the innermost group. -/
def ReadsUnary (d : Nat) (ts : List Token) (c : Condition) : Prop :=
  ∀ (g : Group) (gs : List Group), depth ⟨g, gs, .operand⟩ + d ≤ maxDepth →
    readAll ⟨g, gs, .operand⟩ ts = .ok ⟨g.addOperand c, gs, .connective⟩

/-- The tokens complete factors of the conjunction at hand. -/
def ReadsFactors (d : Nat) (ts : List Token) (cs : List Condition) : Prop :=
  ∀ (as fs : List Condition) (gs : List Group), depth.depthFrom 0 gs + d ≤ maxDepth →
    readAll ⟨⟨as, fs, 0⟩, gs, .operand⟩ ts = .ok ⟨⟨as, cs.reverse ++ fs, 0⟩, gs, .connective⟩

/-- The tokens make up the conjunction at hand. -/
def ReadsConjunction (d : Nat) (ts : List Token) (c : Condition) : Prop :=
  ∀ (as : List Condition) (gs : List Group), depth.depthFrom 0 gs + d ≤ maxDepth →
    ∃ fs, readAll ⟨⟨as, [], 0⟩, gs, .operand⟩ ts = .ok ⟨⟨as, fs, 0⟩, gs, .connective⟩ ∧
      Group.conjunction ⟨as, fs, 0⟩ = c

/-- The tokens add conjunctions to the innermost group. -/
def ReadsAlternatives (d : Nat) (ts : List Token) (cs : List Condition) : Prop :=
  ∀ (as : List Condition) (gs : List Group), depth.depthFrom 0 gs + d ≤ maxDepth →
    ∃ g, readAll ⟨⟨as, [], 0⟩, gs, .operand⟩ ts = .ok ⟨g, gs, .connective⟩ ∧
      g.conjunction :: g.alternatives = cs.reverse ++ as

/-- The tokens fill a group that stands for the condition. -/
def ReadsDisjunction (d : Nat) (ts : List Token) (c : Condition) : Prop :=
  ∀ gs : List Group, depth.depthFrom 0 gs + d ≤ maxDepth →
    ∃ g, readAll ⟨.empty, gs, .operand⟩ ts = .ok ⟨g, gs, .connective⟩ ∧ g.condition = c

variable {d : Nat} {ts us : List Token} {c : Condition} {cs : List Condition}

theorem Comparison.reads (h : Comparison ts c) : ReadsUnary d ts c := by
  intro g gs _
  cases h with
  | plain hkey =>
    rw [Step.field.readAll_cons, Step.operator.readAll_cons, (Step.argument hkey).readAll_cons,
      readAll_nil, Condition.leaf]
  | enclosed hkey =>
    rw [Step.field.readAll_cons, Step.operator.readAll_cons, Step.opening.readAll_cons,
      (Step.enclosed hkey).readAll_cons, Step.enclosure.readAll_cons, readAll_nil, Condition.leaf]

theorem addOperand_negation (g : Group) (c : Condition) :
    Group.addOperand ⟨g.alternatives, g.factors, g.negations + 1⟩ c = g.addOperand (.not c) := by
  suffices h : Group.negate (g.negations + 1) c = Group.negate g.negations (.not c) by
    rw [Group.addOperand, h, Group.addOperand]
  induction g.negations with
  | zero => rfl
  | succ n ih => rw [Group.negate, ih, Group.negate]

theorem ReadsUnary.not (h : ReadsUnary d ts c) : ReadsUnary (d + 1) (.not :: ts) (.not c) := by
  intro g gs hdepth
  rw [depth_mk, depthFrom_eq] at hdepth
  have hinside : depth ⟨⟨g.alternatives, g.factors, g.negations + 1⟩, gs, .operand⟩ + d ≤
      maxDepth := by
    show depth.depthFrom (g.negations + 1) gs + d ≤ maxDepth
    rw [depthFrom_eq]
    omega
  rw [(Step.negation (by rw [depth_mk, depthFrom_eq]; omega)).readAll_cons, h _ gs hinside,
    addOperand_negation]

theorem ReadsDisjunction.group (h : ReadsDisjunction d ts c) :
    ReadsUnary (d + 1) (.opening :: (ts ++ [.closing])) c := by
  intro g gs hdepth
  rw [depth_mk, depthFrom_eq] at hdepth
  have hinside : depth.depthFrom 0 (g :: gs) + d ≤ maxDepth := by
    rw [depth.depthFrom, depthFrom_eq]
    omega
  obtain ⟨g', hread, hc⟩ := h (g :: gs) hinside
  rw [(Step.group (by rw [depth_mk, depthFrom_eq]; omega)).readAll_cons, readAll_append hread,
    Step.closing.readAll_cons, hc, readAll_nil]

theorem ReadsUnary.one (h : ReadsUnary d ts c) : ReadsFactors d ts [c] :=
  fun as fs gs hdepth => h ⟨as, fs, 0⟩ gs hdepth

theorem ReadsUnary.more (h : ReadsUnary d ts c) (hs : ReadsFactors d us cs) :
    ReadsFactors d (ts ++ .and :: us) (c :: cs) := by
  intro as fs gs hdepth
  rw [readAll_append (h ⟨as, fs, 0⟩ gs hdepth), Step.and.readAll_cons, List.reverse_cons,
    List.append_assoc]
  exact hs as _ gs hdepth

theorem ReadsFactors.conjunction (h : ReadsFactors d ts cs) :
    ReadsConjunction d ts (.joinWith .and cs) := by
  intro as gs hdepth
  refine ⟨cs.reverse ++ [], h as [] gs hdepth, ?_⟩
  rw [Group.conjunction, List.append_nil, List.reverse_reverse]

theorem ReadsConjunction.one (h : ReadsConjunction d ts c) : ReadsAlternatives d ts [c] := by
  intro as gs hdepth
  obtain ⟨fs, hread, hc⟩ := h as gs hdepth
  refine ⟨⟨as, fs, 0⟩, hread, ?_⟩
  rw [hc]
  rfl

theorem ReadsConjunction.more (h : ReadsConjunction d ts c) (hs : ReadsAlternatives d us cs) :
    ReadsAlternatives d (ts ++ .or :: us) (c :: cs) := by
  intro as gs hdepth
  obtain ⟨fs, hread, hc⟩ := h as gs hdepth
  obtain ⟨g, hreads, hcs⟩ := hs (Group.conjunction ⟨as, fs, 0⟩ :: as) gs hdepth
  refine ⟨g, ?_, ?_⟩
  · rw [readAll_append hread, Step.or.readAll_cons]
    exact hreads
  · rw [hcs, hc, List.reverse_cons, List.append_assoc]
    rfl

theorem ReadsAlternatives.disjunction (h : ReadsAlternatives d ts cs) :
    ReadsDisjunction d ts (.joinWith .or cs) := by
  intro gs hdepth
  obtain ⟨g, hread, hcs⟩ := h [] gs hdepth
  refine ⟨g, hread, ?_⟩
  rw [Group.condition, hcs, List.append_nil, List.reverse_reverse]

end

mutual
/-- **A derivation is followed.** Reading the tokens of a production does what it should. -/
theorem Disjunction.reads : ∀ {d : Nat} {ts : List Token} {c : Condition},
    Disjunction d ts c → ReadsDisjunction d ts c
  | _, _, _, .one h => h.reads.one.disjunction
  | _, _, _, .several h => h.reads.disjunction

theorem Alternatives.reads : ∀ {d : Nat} {ts : List Token} {cs : List Condition},
    Alternatives d ts cs → ReadsAlternatives d ts cs
  | _, _, _, .one h => h.reads.one
  | _, _, _, .more h hs => h.reads.more hs.reads

theorem Conjunction.reads : ∀ {d : Nat} {ts : List Token} {c : Condition},
    Conjunction d ts c → ReadsConjunction d ts c
  | _, _, _, .one h => h.reads.one.conjunction
  | _, _, _, .several h => h.reads.conjunction

theorem Factors.reads : ∀ {d : Nat} {ts : List Token} {cs : List Condition},
    Factors d ts cs → ReadsFactors d ts cs
  | _, _, _, .one h => h.reads.one
  | _, _, _, .more h hs => h.reads.more hs.reads

theorem Unary.reads : ∀ {d : Nat} {ts : List Token} {c : Condition},
    Unary d ts c → ReadsUnary d ts c
  | _, _, _, .not h => h.reads.not
  | _, _, _, .group h => h.reads.group
  | _, _, _, .comparison h => h.reads
end

/-- A clause accepted is a clause of the grammar. -/
theorem disjunction_of_run {tokens : List (Nat × Token)} {c : Condition}
    (h : Reading.start.run tokens = .ok c) :
    Disjunction maxDepth (tokens.map Prod.snd) c := by
  obtain ⟨g, hread, rfl⟩ := Reading.run_eq_ok_iff.1 h
  obtain ⟨d, as, us, hts, haround, hafter⟩ := (Reads.start.readAll hread).completed
  cases haround
  rw [List.nil_append, List.nil_append] at hts
  rw [hts]
  exact hafter.condition

/-- A clause of the grammar is accepted. -/
theorem Disjunction.run {tokens : List (Nat × Token)} {c : Condition}
    (h : Disjunction maxDepth (tokens.map Prod.snd) c) : Reading.start.run tokens = .ok c := by
  obtain ⟨g, hread, hc⟩ := h.reads [] (by simp [Reading.depth.depthFrom])
  exact Reading.run_eq_ok_iff.2 ⟨g, hread, hc⟩

/-- The grammar gives a token list one condition at most. -/
theorem Disjunction.unique {ts : List Token} {c c' : Condition} (h : Disjunction maxDepth ts c)
    (h' : Disjunction maxDepth ts c') : c = c' := by
  have hts : ts = (ts.map fun t => (0, t)).map Prod.snd := by simp [List.map_map, Function.comp_def]
  rw [hts] at h h'
  exact Except.ok.inj (h.run.symm.trans h'.run)

/-- **Reading accepts the grammar.** A reading of any tokens ends, and it ends in a condition
if and only if the tokens are a clause of the grammar with `maxDepth` groups and negations
to open: in the one condition that the grammar gives them.  Other tokens are refused. -/
theorem run_iff_disjunction (tokens : List (Nat × Token)) :
    (∀ c, Reading.start.run tokens = .ok c ↔ Disjunction maxDepth (tokens.map Prod.snd) c) ∧
      (∀ c c', Disjunction maxDepth (tokens.map Prod.snd) c →
        Disjunction maxDepth (tokens.map Prod.snd) c' → c = c') ∧
      ((∃ e, Reading.start.run tokens = .error e) ↔
        ∀ c, ¬Disjunction maxDepth (tokens.map Prod.snd) c) := by
  have haccepted : ∀ c, Reading.start.run tokens = .ok c ↔
      Disjunction maxDepth (tokens.map Prod.snd) c :=
    fun c => ⟨disjunction_of_run, Disjunction.run⟩
  refine ⟨haccepted, fun c c' h h' => h.unique h', ?_, ?_⟩
  · rintro ⟨e, he⟩ c hc
    rw [← haccepted, he] at hc
    cases hc
  · intro hnone
    cases h : Reading.start.run tokens with
    | ok c => exact absurd ((haccepted c).1 h) (hnone c)
    | error e => exact ⟨e, rfl⟩

end Grammar
end LayeredStore
