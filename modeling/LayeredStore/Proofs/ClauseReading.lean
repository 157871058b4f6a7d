import LayeredStore.Condition.Clause

/-! # Readings of a clause

A clause is read by `Reading.step`, one token at a time.  `Reading.Step` lists the steps
there are (`step_eq_ok_iff`), `Reading.readAll` takes several of them, and a run is
`readAll` followed by the end of the clause (`run_eq_ok_iff`): where the tokens start in
the text only shows in a refusal.
-/
namespace LayeredStore.Reading

/-- The steps of a reading: the tokens that may follow, and what each of them does. -/
inductive Step : Reading → Token → Reading → Prop
  | negation {g gs} : depth ⟨g, gs, .operand⟩ < maxDepth →
      Step ⟨g, gs, .operand⟩ .not ⟨⟨g.alternatives, g.factors, g.negations + 1⟩, gs, .operand⟩
  | group {g gs} : depth ⟨g, gs, .operand⟩ < maxDepth →
      Step ⟨g, gs, .operand⟩ .opening ⟨.empty, g :: gs, .operand⟩
  | field {g gs f} : Step ⟨g, gs, .operand⟩ (.identifier f) ⟨g, gs, .operator f⟩
  | operator {g gs f op} : Step ⟨g, gs, .operator f⟩ (.op op) ⟨g, gs, .argument f op⟩
  | argument {g gs f op t key} : t.key? = some key →
      Step ⟨g, gs, .argument f op⟩ t ⟨g.addOperand (.leaf f op key), gs, .connective⟩
  | opening {g gs f} : Step ⟨g, gs, .argument f .isIn⟩ .opening ⟨g, gs, .enclosed f⟩
  | enclosed {g gs f t key} : t.key? = some key →
      Step ⟨g, gs, .enclosed f⟩ t ⟨g, gs, .enclosure (.leaf f .isIn key)⟩
  | enclosure {g gs leaf} :
      Step ⟨g, gs, .enclosure leaf⟩ .closing ⟨g.addOperand leaf, gs, .connective⟩
  | and {g gs} : Step ⟨g, gs, .connective⟩ .and ⟨g, gs, .operand⟩
  | or {g gs} : Step ⟨g, gs, .connective⟩ .or ⟨g.endConjunction, gs, .operand⟩
  | closing {g around gs} :
      Step ⟨g, around :: gs, .connective⟩ .closing
        ⟨around.addOperand g.condition, gs, .connective⟩

theorem Step.step_eq {r r' : Reading} {t : Token} (h : Step r t r') : r.step t = .ok r' := by
  cases h with
  | negation hdepth => simp only [step, hdepth, if_true]
  | group hdepth => simp only [step, hdepth, if_true]
  | argument hkey =>
    have hopening : t ≠ .opening := fun ht => by simp [ht, Token.key?] at hkey
    simp [step, hopening, hkey, deliver]
  | enclosed hkey => simp only [step, hkey]
  | _ => rfl

theorem step_of_eq {r r' : Reading} {t : Token} (h : r.step t = .ok r') : Step r t r' := by
  obtain ⟨g, gs, expected⟩ := r
  cases expected with
  | operand =>
    simp only [step] at h
    split at h
    · split at h
      · next hdepth => exact Except.ok.inj h ▸ .negation hdepth
      · cases h
    · split at h
      · next hdepth => exact Except.ok.inj h ▸ .group hdepth
      · cases h
    · exact Except.ok.inj h ▸ .field
    · cases h
  | operator f =>
    simp only [step] at h
    split at h
    · exact Except.ok.inj h ▸ .operator
    · cases h
  | argument f op =>
    simp only [step] at h
    split at h
    · next hin =>
      obtain ⟨rfl, rfl⟩ := hin
      exact Except.ok.inj h ▸ .opening
    · split at h
      · next hkey => exact Except.ok.inj h ▸ .argument hkey
      · cases h
  | enclosed f =>
    simp only [step] at h
    split at h
    · next hkey => exact Except.ok.inj h ▸ .enclosed hkey
    · cases h
  | enclosure leaf =>
    simp only [step] at h
    split at h
    · exact Except.ok.inj h ▸ .enclosure
    · cases h
  | connective =>
    simp only [step] at h
    split at h
    · exact Except.ok.inj h ▸ .and
    · exact Except.ok.inj h ▸ .or
    · exact Except.ok.inj h ▸ .closing
    · cases h
    · cases h

theorem step_eq_ok_iff {r r' : Reading} {t : Token} : r.step t = .ok r' ↔ Step r t r' :=
  ⟨step_of_eq, Step.step_eq⟩

/-- Read tokens one after the other; the clause may go on. -/
def readAll (r : Reading) : List Token → Except ClauseFault Reading
  | [] => .ok r
  | t :: ts =>
    match r.step t with
    | .ok r => r.readAll ts
    | .error fault => .error fault

@[simp] theorem readAll_nil (r : Reading) : r.readAll [] = .ok r := rfl

theorem Step.readAll_cons {r r' : Reading} {t : Token} (h : Step r t r') (ts : List Token) :
    r.readAll (t :: ts) = r'.readAll ts := by
  rw [readAll, h.step_eq]

theorem readAll_append {r r' : Reading} {ts : List Token} (h : r.readAll ts = .ok r')
    (us : List Token) : r.readAll (ts ++ us) = r'.readAll us := by
  induction ts generalizing r with
  | nil =>
    cases h
    rfl
  | cons t ts ih =>
    rw [readAll] at h
    rw [List.cons_append, readAll]
    split at h
    · exact ih h
    · cases h

theorem readAll_append_of_error {r : Reading} {ts : List Token} {fault : ClauseFault}
    (h : r.readAll ts = .error fault) (us : List Token) : r.readAll (ts ++ us) = .error fault := by
  induction ts generalizing r with
  | nil => cases h
  | cons t ts ih =>
    rw [readAll] at h
    rw [List.cons_append, readAll]
    split at h
    · exact ih h
    · exact h

theorem run_cons_of_ok {r r' : Reading} {t : Token} (h : r.step t = .ok r') (offset : Nat)
    (rest : List (Nat × Token)) : r.run ((offset, t) :: rest) = r'.run rest := by
  rw [run, h]

/-- A run takes all the steps, unless a token is refused. -/
theorem run_eq_of_readAll {r r' : Reading} {tokens : List (Nat × Token)}
    (h : r.readAll (tokens.map Prod.snd) = .ok r') : r.run tokens = r'.run [] := by
  induction tokens generalizing r with
  | nil =>
    cases h
    rfl
  | cons e rest ih =>
    rw [List.map_cons, readAll] at h
    split at h
    · next hstep =>
      rw [run_cons_of_ok hstep]
      exact ih h
    · cases h

theorem run_eq_of_readAll_error {r : Reading} {tokens : List (Nat × Token)}
    {fault : ClauseFault} (h : r.readAll (tokens.map Prod.snd) = .error fault) :
    ∃ offset, r.run tokens = .error (.refused offset fault) := by
  induction tokens generalizing r with
  | nil => cases h
  | cons e rest ih =>
    rw [List.map_cons, readAll] at h
    split at h
    · next hstep =>
      rw [run_cons_of_ok hstep]
      exact ih h
    · next hstep =>
      cases h
      refine ⟨e.1, ?_⟩
      rw [run, hstep]

theorem run_nil_eq_ok_iff {r : Reading} {c : Condition} :
    r.run [] = .ok c ↔ r.expected = .connective ∧ r.outer = [] ∧ r.group.condition = c := by
  obtain ⟨g, gs, expected⟩ := r
  cases expected with
  | connective => cases gs <;> simp [run, finish]
  | _ => simp [run, finish]

/-- **A clause is read to its end.** A run gives a condition when every token takes a step
and the last one completes the outermost group, which is the condition. -/
theorem run_eq_ok_iff {r : Reading} {tokens : List (Nat × Token)} {c : Condition} :
    r.run tokens = .ok c ↔
      ∃ g, r.readAll (tokens.map Prod.snd) = .ok ⟨g, [], .connective⟩ ∧ g.condition = c := by
  cases h : r.readAll (tokens.map Prod.snd) with
  | error fault =>
    obtain ⟨offset, hrun⟩ := run_eq_of_readAll_error h
    simp [hrun]
  | ok r' =>
    rw [run_eq_of_readAll h, run_nil_eq_ok_iff]
    obtain ⟨g, gs, expected⟩ := r'
    simp only [Except.ok.injEq, mk.injEq]
    constructor
    · rintro ⟨rfl, rfl, rfl⟩
      exact ⟨g, ⟨rfl, rfl, rfl⟩, rfl⟩
    · rintro ⟨-, ⟨rfl, rfl, rfl⟩, rfl⟩
      exact ⟨rfl, rfl, rfl⟩

/-! ### Depth -/

theorem depth_mk (g : Group) (gs : List Group) (expected : Expected) :
    depth ⟨g, gs, expected⟩ = depth.depthFrom g.negations gs := rfl

theorem depthFrom_eq (inside : Nat) (gs : List Group) :
    depth.depthFrom inside gs = inside + depth.depthFrom 0 gs := by
  induction gs generalizing inside with
  | nil => rfl
  | cons g gs ih =>
    rw [depth.depthFrom, depth.depthFrom, ih, ih (0 + 1 + g.negations)]
    omega

end LayeredStore.Reading
