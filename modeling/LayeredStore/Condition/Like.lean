import LayeredStore.Text.Lowercase

/-! # Wildcard patterns

In a pattern `%` stands for any run of characters, `_` for one character, and every
other character for itself; case does not matter, because text and pattern are first
replaced by their lowercase expansions.

The search for a match goes through text and pattern side by side (`Search.step`).  A `%` is
first taken for the empty run.  When text and pattern differ later on, the last `%` takes one
character more and the search resumes behind it; no `%` before the last is ever resumed.  So a
search keeps one place to resume at, and it comes to an end because every step brings it
behind a further `%`, gives the last `%` one character more or goes on in the text
(`Search.step_lt`).
-/
namespace LayeredStore.Like

/-- Where a search resumes: behind the last `%`, at the text that followed its run. -/
structure Retry where
  /-- The text behind the run. -/
  text : List Char
  /-- The pattern behind the `%`. -/
  pattern : List Char

/-- Text and pattern can be left after as many characters of both, none of them a `%`. -/
def Retry.LeadsTo (r : Retry) (text pattern : List Char) : Prop :=
  ∃ run passed, r.text = run ++ text ∧ r.pattern = passed ++ pattern ∧
    run.length = passed.length ∧ '%' ∉ passed

theorem Retry.leadsTo_self (text pattern : List Char) :
    Retry.LeadsTo ⟨text, pattern⟩ text pattern :=
  ⟨[], [], rfl, rfl, rfl, List.not_mem_nil⟩

/-- One more character of both is passed. -/
theorem Retry.LeadsTo.next {r : Retry} {c d : Char} {text pattern : List Char}
    (h : r.LeadsTo (c :: text) (d :: pattern)) (hd : d ≠ '%') : r.LeadsTo text pattern := by
  obtain ⟨run, passed, htext, hpattern, hlength, hpassed⟩ := h
  refine ⟨run ++ [c], passed ++ [d], by simp [htext], by simp [hpattern], by simp [hlength], ?_⟩
  simp [hpassed, Ne.symm hd]

/-- A search for a match, under way. -/
structure Search where
  /-- The text that is left. -/
  text : List Char
  /-- The pattern that is left. -/
  pattern : List Char
  /-- Where to resume, if a `%` has been met. -/
  retry? : Option Retry
  /-- The search has come from there. -/
  leads : ∀ r ∈ retry?, r.LeadsTo text pattern

namespace Search

/-- The search behind a `%`. -/
def behind (text pattern : List Char) : Search where
  text := text
  pattern := pattern
  retry? := some ⟨text, pattern⟩
  leads r hr := by
    obtain rfl := Option.some.inj hr
    exact Retry.leadsTo_self text pattern

/-- Let the last `%` take one character more; without a `%` there is no match. -/
def resume (s : Search) : Search ⊕ Bool :=
  match s.retry? with
  | some r => .inl (behind r.text.tail r.pattern)
  | none => .inr false

/-- Go on to another search, or come to a verdict. -/
def step (s : Search) : Search ⊕ Bool :=
  match htext : s.text, hpattern : s.pattern with
  | [], pattern => .inr (pattern.all (· == '%'))
  | _ :: _, [] => s.resume
  | c :: text, d :: pattern =>
    if hd : d = '%' then .inl (behind (c :: text) pattern)
    else if d = '_' ∨ d = c then
      .inl ⟨text, pattern, s.retry?, fun r hr => (htext ▸ hpattern ▸ s.leads r hr).next hd⟩
    else s.resume

/-- The text goes on with a character that the pattern does not. -/
structure Differs (s : Search) : Prop where
  /-- There is such a character. -/
  text : s.text ≠ []
  /-- The pattern has neither a wildcard in its place nor the character itself. -/
  pattern : ∀ c ∈ s.text.head?, ∀ d ∈ s.pattern.head?, d ≠ '%' ∧ d ≠ '_' ∧ d ≠ c

/-- What a step can do. -/
inductive Steps (s : Search) : Search ⊕ Bool → Prop
  /-- At the end of the text the rest of the pattern must be able to stand for nothing. -/
  | ended (htext : s.text = []) : Steps s (.inr (s.pattern.all (· == '%')))
  /-- A `%` is taken for the empty run. -/
  | percent {pattern : List Char} (htext : s.text ≠ []) (hpattern : s.pattern = '%' :: pattern) :
      Steps s (.inl (behind s.text pattern))
  /-- A character is passed. -/
  | passed {t : Search} {c d : Char} (htext : s.text = c :: t.text)
      (hpattern : s.pattern = d :: t.pattern) (hd : d ≠ '%') (hsame : d = '_' ∨ d = c)
      (hretry : t.retry? = s.retry?) : Steps s (.inl t)
  /-- The last `%` takes one character more. -/
  | resumed {r : Retry} (hdiffers : s.Differs) (hretry : s.retry? = some r) :
      Steps s (.inl (behind r.text.tail r.pattern))
  /-- There is no `%` to resume at. -/
  | refused (hdiffers : s.Differs) (hretry : s.retry? = none) : Steps s (.inr false)

theorem Differs.steps_resume {s : Search} (h : s.Differs) : s.Steps s.resume := by
  unfold resume
  split
  · next r hr => exact .resumed h hr
  · next hr => exact .refused h hr

theorem steps_step (s : Search) : s.Steps s.step := by
  unfold step
  split
  · next htext => exact .ended htext
  · next c text htext hpattern =>
    refine Differs.steps_resume ⟨?_, ?_⟩
    · simp [htext]
    · simp [hpattern]
  · next c text d pattern htext hpattern =>
    split
    · next hd =>
      rw [← htext]
      exact .percent (by simp [htext]) (hd ▸ hpattern)
    · next hd =>
      split
      · next hsame => exact .passed htext hpattern hd hsame rfl
      · next hsame =>
        refine Differs.steps_resume ⟨by simp [htext], ?_⟩
        rw [htext, hpattern]
        rintro _ ⟨⟩ _ ⟨⟩
        exact ⟨hd, not_or.1 hsame⟩

/-! ### Searches end -/

/-- How much pattern there is behind the last `%`; before the first, more than is left. -/
def stage (s : Search) : Nat := s.retry?.elim (s.pattern.length + 1) fun r => r.pattern.length

/-- How much text there is behind the run of the last `%`. -/
def room (s : Search) : Nat := s.retry?.elim 0 fun r => r.text.length

/-- One search is nearer to its end than another. -/
def Nearer (t s : Search) : Prop :=
  t.stage < s.stage ∨ t.stage = s.stage ∧
    (t.room < s.room ∨ t.room = s.room ∧ t.text.length < s.text.length)

/-- What is left is no more than what was left behind the last `%`. -/
theorem length_le {s : Search} {r : Retry} (hr : s.retry? = some r) :
    s.text.length ≤ r.text.length ∧ s.pattern.length ≤ r.pattern.length := by
  obtain ⟨run, passed, htext, hpattern, -⟩ := s.leads r hr
  rw [htext, hpattern, List.length_append, List.length_append]
  omega

/-- **Every step brings a search nearer to its end.** -/
theorem step_lt {s t : Search} (h : s.step = .inl t) : t.Nearer s := by
  have hstep := s.steps_step
  rw [h] at hstep
  cases hstep with
  | percent htext hpattern =>
    -- Behind a further `%` less of the pattern is left than behind the one before.
    left
    rcases hr : s.retry? with _ | r
    · simp only [stage, behind, hr, hpattern, Option.elim_some, Option.elim_none, List.length_cons]
      omega
    · have hlength := (length_le hr).2
      rw [hpattern, List.length_cons] at hlength
      simp only [stage, behind, hr, Option.elim_some]
      omega
  | passed htext hpattern hd hsame hretry =>
    rcases hr : s.retry? with _ | r
    · left
      simp only [stage, hretry, hr, hpattern, Option.elim_none, List.length_cons]
      omega
    · right
      refine ⟨by simp only [stage, hretry, hr, Option.elim_some], .inr ⟨?_, ?_⟩⟩
      · simp only [room, hretry]
      · rw [htext, List.length_cons]
        omega
  | @resumed r hdiffers hretry =>
    right
    have hlength := (length_le hretry).1
    have htext := List.length_pos_iff.2 hdiffers.text
    have htail := List.length_tail (l := r.text)
    refine ⟨by simp only [stage, behind, hretry, Option.elim_some], .inl ?_⟩
    simp only [room, behind, hretry, Option.elim_some]
    omega

/-- Search until there is a verdict. -/
def run (s : Search) : Bool :=
  match _h : s.step with
  | .inl t => t.run
  | .inr verdict => verdict
termination_by (s.stage, s.room, s.text.length)
decreasing_by
  rcases step_lt _h with hstage | ⟨hstage, hroom | ⟨hroom, htext⟩⟩
  · exact .left _ _ hstage
  · rw [hstage]
    exact .right _ (.left _ _ hroom)
  · rw [hstage, hroom]
    exact .right _ (.right _ htext)

theorem run_of_step {s t : Search} (h : s.step = .inl t) : s.run = t.run := by
  rw [run]
  split
  · next u hu => rw [Sum.inl.inj (hu.symm.trans h)]
  · next verdict hverdict => cases hverdict.symm.trans h

theorem run_of_verdict {s : Search} {verdict : Bool} (h : s.step = .inr verdict) :
    s.run = verdict := by
  rw [run]
  split
  · next t ht => cases ht.symm.trans h
  · next _ hverdict => rw [Sum.inr.inj (hverdict.symm.trans h)]

end Search

/-- Whether the pattern covers the text, character by character. -/
def covers (text pattern : List Char) : Bool := Search.run ⟨text, pattern, none, nofun⟩

/-- Whether a text fits a pattern, case aside. -/
def isLike (text pattern : String) : Bool :=
  covers (Text.fold text.toList) (Text.fold pattern.toList)

end LayeredStore.Like
