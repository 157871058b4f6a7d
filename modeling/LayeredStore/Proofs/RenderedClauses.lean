import LayeredStore.Proofs.ClauseRendering

/-! # The texts of conditions that were read

A condition that a clause was read to has a text of its own.  The condition is renderable and
canonical (`Clause.isRead_of_parse`), so the text is read back to the very condition unless it
is nested too deep (`Clause.read_again_iff`).  That can be: the text has parentheses around
every conjunction and disjunction, also where the clause did without them
(`Clause.not_read_again`).
-/
namespace LayeredStore

namespace Condition

/-- A condition as clauses are read to: renderable and canonical. -/
structure IsRead (c : Condition) : Prop where
  renderable : c.Renderable
  canonical : c.canonical = c

theorem IsRead.not {c : Condition} (h : IsRead c) : IsRead (.not c) :=
  ⟨.not h.renderable, congrArg Condition.not h.canonical⟩

theorem IsRead.join {join : List Condition → Condition}
    (hrenderable : ∀ {parts}, parts ≠ [] → (∀ c ∈ parts, Renderable c) → Renderable (join parts))
    (hcanonical : ∀ parts, (join parts).canonical = joinWith join (canonicalOf parts))
    {c d : Condition} {rest : List Condition} (h : ∀ e ∈ c :: d :: rest, IsRead e) :
    IsRead (join (c :: d :: rest)) where
  renderable := hrenderable (List.cons_ne_nil c _) fun e he => (h e he).renderable
  canonical := by
    rw [hcanonical, canonicalOf_eq_self fun e he => (h e he).canonical, joinWith_cons_cons]

theorem Renderable.negate {c : Condition} (h : Renderable c) (n : Nat) :
    Renderable (Group.negate n c) := by
  induction n with
  | zero => exact h
  | succ n ih => exact .not ih

theorem isRead_leaf {field key : String} (op : Operator) (hfield : Token.IsFieldName field)
    (hkey : Token.IsKey key) : IsRead (.leaf field op key) where
  renderable := .compare hfield.normalizeName hkey
  canonical := by rw [leaf, canonical, leaf, normalizeName_normalizeName]

end Condition

namespace Grammar

theorem Comparison.isRead {ts : List Token} {c : Condition} (h : Comparison ts c)
    (hts : ∀ t ∈ ts, t.Legible) : c.IsRead := by
  cases h with
  | plain hkey =>
    simp only [List.forall_mem_cons] at hts
    exact Condition.isRead_leaf _ hts.1.isFieldName (hts.2.2.1.isKey hkey)
  | enclosed hkey =>
    simp only [List.forall_mem_cons] at hts
    exact Condition.isRead_leaf _ hts.1.isFieldName (hts.2.2.2.1.isKey hkey)

theorem legible_more {ts us : List Token} {separator : Token}
    (h : ∀ t ∈ ts ++ separator :: us, t.Legible) :
    (∀ t ∈ ts, t.Legible) ∧ ∀ t ∈ us, t.Legible := by
  obtain ⟨hts, hrest⟩ := List.forall_mem_append.1 h
  exact ⟨hts, (List.forall_mem_cons.1 hrest).2⟩

mutual
/-- Legible tokens derive conditions that are renderable and canonical. -/
theorem Disjunction.isRead : ∀ {d : Nat} {ts : List Token} {c : Condition},
    Disjunction d ts c → (∀ t ∈ ts, t.Legible) → c.IsRead
  | _, _, _, .one h, hts => h.isRead hts
  | _, _, _, .several h, hts => .join .or (fun _ => rfl) (h.isRead hts)

theorem Alternatives.isRead : ∀ {d : Nat} {ts : List Token} {cs : List Condition},
    Alternatives d ts cs → (∀ t ∈ ts, t.Legible) → ∀ c ∈ cs, c.IsRead
  | _, _, _, .one h, hts => List.forall_mem_singleton.2 (h.isRead hts)
  | _, _, _, .more h hs, hts =>
    List.forall_mem_cons.2 ⟨h.isRead (legible_more hts).1, hs.isRead (legible_more hts).2⟩

theorem Conjunction.isRead : ∀ {d : Nat} {ts : List Token} {c : Condition},
    Conjunction d ts c → (∀ t ∈ ts, t.Legible) → c.IsRead
  | _, _, _, .one h, hts => h.isRead hts
  | _, _, _, .several h, hts => .join .and (fun _ => rfl) (h.isRead hts)

theorem Factors.isRead : ∀ {d : Nat} {ts : List Token} {cs : List Condition},
    Factors d ts cs → (∀ t ∈ ts, t.Legible) → ∀ c ∈ cs, c.IsRead
  | _, _, _, .one h, hts => List.forall_mem_singleton.2 (h.isRead hts)
  | _, _, _, .more h hs, hts =>
    List.forall_mem_cons.2 ⟨h.isRead (legible_more hts).1, hs.isRead (legible_more hts).2⟩

theorem Unary.isRead : ∀ {d : Nat} {ts : List Token} {c : Condition},
    Unary d ts c → (∀ t ∈ ts, t.Legible) → c.IsRead
  | _, _, _, .not h, hts => (h.isRead (List.forall_mem_cons.1 hts).2).not
  | _, _, _, .group h, hts => h.isRead (legible_more (List.forall_mem_cons.1 hts).2).1
  | _, _, _, .comparison h, hts => h.isRead hts
end

end Grammar

namespace Clause

/-- The tokens of an accepted text are legible and derive its condition. -/
theorem disjunction_of_parse {text : String} {clause : Clause} (h : parse text = .ok clause) :
    ∃ ts, (∀ t ∈ ts, t.Legible) ∧ Grammar.Disjunction maxDepth ts clause.condition := by
  rw [parse, ofText] at h
  cases hscan : Token.scan 0 0 text.toList with
  | error e =>
    rw [hscan] at h
    cases h
  | ok located =>
    rw [hscan] at h
    cases hrun : Reading.start.run located with
    | error e =>
      simp only [hrun] at h
      cases h
    | ok c =>
      simp only [hrun] at h
      cases h
      exact ⟨_, List.forall_mem_map.2 (Token.legible_of_scan hscan),
        Grammar.disjunction_of_run hrun⟩

/-- **What a clause is read to** is renderable and canonical. -/
theorem isRead_of_parse {text : String} {clause : Clause} (h : parse text = .ok clause) :
    clause.condition.IsRead := by
  obtain ⟨ts, hts, hc⟩ := disjunction_of_parse h
  exact hc.isRead hts

/-- Clauses with alternatives side by side need no parentheses around the whole. -/
theorem parse_joined_or {parts : List Condition} (hne : parts ≠ [])
    (h : ∀ c ∈ parts, c.Renderable) (hnest : ∀ c ∈ parts, c.nest ≤ maxDepth) :
    parse (Condition.joined " OR " parts) =
      .ok ⟨Condition.joinWith .or (Condition.canonicalOf parts), 0⟩ := by
  have hword : Token.IsWord "OR" := by decide
  have hlexes := Condition.lexes_joined " OR " "OR" .or (by decide) hword.lexes hne
    fun c hc => (h c hc).lexes
  have hall : Grammar.Alternatives maxDepth (Condition.tokensOf .or parts)
      (Condition.canonicalOf parts) :=
    Condition.series_tokensOf .one .more hne fun c hc => .one ((h c hc).unary (hnest c hc))
  exact parse_of_lexes hlexes (Condition.tokensOf_noPlaceholder .or (by simp) parts)
    hall.disjunction

/-- Sixty-four negations of one alternative, and another one beside it. -/
def crowded : Condition :=
  .or [Group.negate 64 (.compare "a" .eq "x"), .compare "b" .eq "y"]

theorem renderable_crowded : crowded.Renderable := by
  refine .or (by decide) (List.forall_mem_cons.2 ⟨?_, List.forall_mem_singleton.2 ?_⟩)
  · exact .negate (.compare (by decide) (by decide)) 64
  · exact .compare (by decide) (by decide)

/-- **Which accepted clauses are read again from the text of their condition.** Those with at
most `maxDepth` inner nodes above any leaf: their text is read back to the same condition.
The text of any other one is refused as nested too deep. -/
theorem read_again_iff {text : String} {clause : Clause} (h : parse text = .ok clause) :
    ((∃ again, parse clause.condition.text = .ok again ∧ again.condition = clause.condition) ↔
      clause.condition.nest ≤ maxDepth) ∧
      (maxDepth < clause.condition.nest → ∃ offset,
        parse clause.condition.text = .error (.parse offset ClauseFault.tooDeep.message)) := by
  have hread := isRead_of_parse h
  have hdeep := hread.renderable.parse_text_tooDeep
  refine ⟨⟨?_, ?_⟩, hdeep⟩
  · rintro ⟨again, hagain, -⟩
    refine Nat.le_of_not_lt fun hlt => ?_
    obtain ⟨offset, herror⟩ := hdeep hlt
    rw [hagain] at herror
    cases herror
  · intro hnest
    have hparse := hread.renderable.parse_text hnest
    rw [hread.canonical] at hparse
    exact ⟨_, hparse, rfl⟩

/-- A clause with two placeholders, which come back as parameters named by their numbers. -/
theorem read_again_iff_nested :
    ∃ clause, parse "a > ? AND (b LIKE :p OR NOT c IN ?)" = .ok clause ∧
      clause.condition.nest ≤ maxDepth ∧
      ∃ again, parse clause.condition.text = .ok again ∧ again.condition = clause.condition := by
  have hread : (parse "a > ? AND (b LIKE :p OR NOT c IN ?)").toOption =
      some ⟨.and [.compare "a" .gt "0", .or [.compare "b" .like "p",
        .not (.compare "c" .isIn "1")]], 2⟩ := by decide +kernel
  cases h : parse "a > ? AND (b LIKE :p OR NOT c IN ?)" with
  | error e =>
    rw [h] at hread
    cases hread
  | ok clause =>
    rw [h] at hread
    obtain rfl := Option.some.inj hread
    exact ⟨_, rfl, by decide, (read_again_iff h).1.2 (by decide)⟩

/-- A clause is accepted that is not read again from the text of its condition: its negations
take all the nesting there may be, and the text has parentheses around them. -/
theorem not_read_again :
    parse (String.join (List.replicate 64 "NOT ") ++ "a = :x OR b = :y") = .ok ⟨crowded, 0⟩ ∧
      ¬∃ again, parse crowded.text = .ok again ∧ again.condition = crowded := by
  constructor
  · have htext : String.join (List.replicate 64 "NOT ") ++ "a = :x OR b = :y" =
        Condition.joined " OR " [Group.negate 64 (.compare "a" .eq "x"), .compare "b" .eq "y"] := by
      decide +kernel
    have hparts : ∀ c ∈ [Group.negate 64 (.compare "a" .eq "x"), .compare "b" .eq "y"],
        c.Renderable := by
      cases renderable_crowded with
      | or _ h => exact h
    rw [htext]
    exact parse_joined_or (by decide) hparts (by decide)
  · rintro ⟨again, hagain, -⟩
    obtain ⟨offset, herror⟩ := renderable_crowded.parse_text_tooDeep (by decide)
    rw [hagain] at herror
    cases herror

end Clause
end LayeredStore
