import LayeredStore.Condition.Like
import Mathlib.Data.List.Forall2

/-! # What wildcard patterns match

A pattern covers a text that splits into runs, one for each character of the pattern and of
what it stands for (`Covers`).  The search finds exactly that (`isLike_iff_covers`), although
it gives up every `%` but the last.

What a search can still find are covers of the text that is left, and, behind the last `%`,
covers of shorter texts (`Search.Succeeds`).  A step loses none of them and adds none
(`Search.succeeds_step`).  The one argument is at a further `%`: whatever could be found by
resuming at the `%` before passes as many characters as the search has passed since then, and
what it covers behind them is the end of what is left, which the further `%` can reach too
(`Search.reaches`).
-/
namespace LayeredStore.Like

/-- What a character of a pattern stands for. -/
inductive StandsFor : Char → List Char → Prop
  | any (run : List Char) : StandsFor '%' run
  | one (c : Char) : StandsFor '_' [c]
  | same {c : Char} : c ≠ '%' → c ≠ '_' → StandsFor c [c]

/-- The text splits into runs, one for each character of the pattern and of what it stands
for. -/
def Covers (text pattern : List Char) : Prop :=
  ∃ runs, List.Forall₂ StandsFor pattern runs ∧ runs.flatten = text

/-! ### Covers, by the first character of the pattern -/

section

variable {R : Char → List Char → Prop} {d : Char} {text pattern : List Char}

/-- An empty pattern has no runs to split a text into. -/
theorem exists_runs_nil :
    (∃ runs, List.Forall₂ R [] runs ∧ runs.flatten = text) ↔ text = [] := by
  constructor
  · rintro ⟨_, ⟨⟩, rfl⟩
    rfl
  · rintro rfl
    exact ⟨[], .nil, rfl⟩

/-- Splitting a text is splitting off the run of the first character. -/
theorem exists_runs_cons :
    (∃ runs, List.Forall₂ R (d :: pattern) runs ∧ runs.flatten = text) ↔
      ∃ run rest, R d run ∧ (∃ runs, List.Forall₂ R pattern runs ∧ runs.flatten = rest) ∧
        run ++ rest = text := by
  constructor
  · rintro ⟨_, hruns, rfl⟩
    rcases hruns with _ | @⟨_, run, _, runs, hrun, hruns⟩
    exact ⟨run, runs.flatten, hrun, ⟨runs, hruns, rfl⟩, rfl⟩
  · rintro ⟨run, _, hrun, ⟨runs, hruns, rfl⟩, rfl⟩
    exact ⟨run :: runs, .cons hrun hruns, rfl⟩

end

theorem covers_nil {text : List Char} : Covers text [] ↔ text = [] := exists_runs_nil

theorem covers_cons {d : Char} {text pattern : List Char} :
    Covers text (d :: pattern) ↔
      ∃ run rest, StandsFor d run ∧ Covers rest pattern ∧ run ++ rest = text := exists_runs_cons

/-- A `%` leaves any end of the text to the rest of the pattern. -/
theorem covers_percent {text pattern : List Char} :
    Covers text ('%' :: pattern) ↔ ∃ rest, rest <:+ text ∧ Covers rest pattern := by
  rw [covers_cons]
  constructor
  · rintro ⟨run, rest, -, hrest, rfl⟩
    exact ⟨rest, List.suffix_append run rest, hrest⟩
  · rintro ⟨rest, ⟨run, rfl⟩, hrest⟩
    exact ⟨run, rest, .any run, hrest, rfl⟩

/-- Any other character passes one character of the text. -/
theorem covers_pass {d : Char} {text pattern : List Char} (hd : d ≠ '%') :
    Covers text (d :: pattern) ↔
      ∃ c rest, text = c :: rest ∧ (d = '_' ∨ d = c) ∧ Covers rest pattern := by
  rw [covers_cons]
  constructor
  · rintro ⟨_, rest, hrun, hrest, rfl⟩
    cases hrun with
    | any run => exact absurd rfl hd
    | one c => exact ⟨c, rest, rfl, .inl rfl, hrest⟩
    | same _ _ => exact ⟨d, rest, rfl, .inr rfl, hrest⟩
  · rintro ⟨c, rest, rfl, hsame, hrest⟩
    refine ⟨[c], rest, ?_, hrest, rfl⟩
    by_cases hone : d = '_'
    · subst hone
      exact .one c
    · obtain rfl := hsame.resolve_left hone
      exact .same hd hone

/-- The empty text is covered by `%` signs alone. -/
theorem covers_empty {pattern : List Char} :
    Covers [] pattern ↔ pattern.all (· == '%') = true := by
  induction pattern with
  | nil => simp [covers_nil]
  | cons d pattern ih =>
    by_cases hd : d = '%'
    · subst hd
      rw [covers_percent, List.all_cons, beq_self_eq_true, Bool.true_and, ← ih]
      simp
    · rw [covers_pass hd]
      simp [hd]

/-- Without a `%` in front, as many characters of the text are passed as of the pattern. -/
theorem Covers.behind {passed pattern text : List Char} (hpassed : '%' ∉ passed)
    (h : Covers text (passed ++ pattern)) :
    ∃ run rest, text = run ++ rest ∧ run.length = passed.length ∧ Covers rest pattern := by
  induction passed generalizing text with
  | nil => exact ⟨[], text, rfl, rfl, h⟩
  | cons d passed ih =>
    obtain ⟨hd, hpassed⟩ := not_or.1 (mt List.mem_cons.2 hpassed)
    obtain ⟨c, rest, rfl, -, hrest⟩ := (covers_pass (Ne.symm hd)).1 h
    obtain ⟨run, last, rfl, hlength, hlast⟩ := ih hpassed hrest
    exact ⟨c :: run, last, rfl, congrArg (· + 1) hlength, hlast⟩

namespace Search

/-! ### What a step preserves -/

/-- What is left is covered, or a shorter text is behind the last `%`. -/
def Succeeds (s : Search) : Prop :=
  Covers s.text s.pattern ∨
    ∃ r ∈ s.retry?, ∃ rest, rest <:+ r.text.tail ∧ Covers rest r.pattern

/-- **What can be found behind the last `%` ends in what can be found from here.** -/
theorem reaches {s : Search} {r : Retry} (hr : r ∈ s.retry?) {rest : List Char}
    (hrest : rest <:+ r.text) (h : Covers rest r.pattern) :
    ∃ last, last <:+ s.text ∧ Covers last s.pattern := by
  obtain ⟨run, passed, htext, hpattern, hlength, hpassed⟩ := s.leads r hr
  rw [hpattern] at h
  obtain ⟨skipped, last, rfl, hskipped, hlast⟩ := h.behind hpassed
  have hend : last <:+ r.text := (List.suffix_append skipped last).trans hrest
  have hleft : s.text <:+ r.text := htext ▸ List.suffix_append run s.text
  -- Both are ends of one text, and as many characters were passed on the way to each.
  have hshort := hrest.length_le
  rw [htext, List.length_append, List.length_append] at hshort
  exact ⟨last, List.suffix_of_suffix_length_le hend hleft (by omega), hlast⟩

/-- Behind a `%` a search succeeds as the pattern with the `%` in front does. -/
theorem succeeds_behind {text pattern : List Char} :
    (behind text pattern).Succeeds ↔ ∃ rest, rest <:+ text ∧ Covers rest pattern := by
  have hretry : (behind text pattern).Succeeds ↔
      Covers text pattern ∨ ∃ rest, rest <:+ text.tail ∧ Covers rest pattern := by
    simp [Succeeds, behind]
  rw [hretry]
  constructor
  · rintro (h | ⟨rest, hrest, h⟩)
    · exact ⟨text, List.suffix_rfl, h⟩
    · exact ⟨rest, hrest.trans (List.tail_suffix text), h⟩
  · rintro ⟨rest, hrest, h⟩
    cases text with
    | nil =>
      obtain rfl := List.suffix_nil.1 hrest
      exact .inl h
    | cons c text =>
      rcases List.suffix_cons_iff.1 hrest with rfl | hrest
      · exact .inl h
      · exact .inr ⟨rest, hrest, h⟩

theorem Differs.not_covers {s : Search} (h : s.Differs) : ¬Covers s.text s.pattern := by
  intro hcovers
  obtain ⟨htext, hpattern⟩ := h
  cases hp : s.pattern with
  | nil =>
    rw [hp, covers_nil] at hcovers
    exact htext hcovers
  | cons d pattern =>
    rw [hp] at hcovers hpattern
    obtain ⟨c, text, ht⟩ := List.exists_cons_of_ne_nil htext
    rw [ht] at hcovers hpattern
    obtain ⟨hpercent, hone, hsame⟩ := hpattern c rfl d rfl
    obtain ⟨_, _, ⟨⟩, hd, -⟩ := (covers_pass hpercent).1 hcovers
    exact hd.elim hone hsame

/-- **A step to another search loses nothing and adds nothing.** -/
theorem succeeds_step {s t : Search} (h : s.step = .inl t) : s.Succeeds ↔ t.Succeeds := by
  have hstep := s.steps_step
  rw [h] at hstep
  cases hstep with
  | @percent pattern htext hpattern =>
    rw [succeeds_behind, ← covers_percent, ← hpattern]
    constructor
    · rintro (hcovers | ⟨r, hr, rest, hrest, hcovers⟩)
      · exact hcovers
      -- The `%` before is given up: what it would find, this one finds.
      · obtain ⟨last, hlast, hcovers⟩ := reaches hr (hrest.trans (List.tail_suffix _)) hcovers
        rw [hpattern, covers_percent] at hcovers ⊢
        obtain ⟨final, hfinal, hcovers⟩ := hcovers
        exact ⟨final, hfinal.trans hlast, hcovers⟩
    · intro hcovers
      exact .inl hcovers
  | passed htext hpattern hd hsame hretry =>
    have hcovers : Covers s.text s.pattern ↔ Covers t.text t.pattern := by
      rw [htext, hpattern, covers_pass hd]
      constructor
      · rintro ⟨_, _, ⟨⟩, -, hrest⟩
        exact hrest
      · intro hrest
        exact ⟨_, _, rfl, hsame, hrest⟩
    rw [Succeeds, Succeeds, hcovers, hretry]
  | @resumed r hdiffers hretry =>
    rw [succeeds_behind, Succeeds, or_iff_right hdiffers.not_covers, hretry]
    simp

/-- **A verdict is right.** -/
theorem succeeds_verdict {s : Search} {verdict : Bool} (h : s.step = .inr verdict) :
    s.Succeeds ↔ verdict = true := by
  have hstep := s.steps_step
  rw [h] at hstep
  cases hstep with
  | ended htext =>
    rw [← covers_empty, ← htext]
    constructor
    · rintro (hcovers | ⟨r, hr, rest, hrest, hcovers⟩)
      · exact hcovers
      · obtain ⟨last, hlast, hcovers⟩ := reaches hr (hrest.trans (List.tail_suffix _)) hcovers
        rw [htext, List.suffix_nil] at hlast
        rwa [htext, ← hlast]
    · intro hcovers
      exact .inl hcovers
  | refused hdiffers hretry =>
    rw [Succeeds, or_iff_right hdiffers.not_covers, hretry]
    simp

/-! ### The whole search -/

/-- **A search answers whether it can succeed.** -/
theorem run_eq_true_iff (s : Search) : s.run = true ↔ s.Succeeds := by
  induction s using run.induct with
  | case1 s t hstep ih => rw [run_of_step hstep, succeeds_step hstep, ih]
  | case2 s verdict hstep => rw [run_of_verdict hstep, succeeds_verdict hstep]

end Search

theorem covers_iff {text pattern : List Char} :
    covers text pattern = true ↔ Covers text pattern := by
  rw [covers, Search.run_eq_true_iff, Search.Succeeds]
  simp

/-- Whether a pattern covers a text can be searched for. -/
instance (text pattern : List Char) : Decidable (Covers text pattern) :=
  decidable_of_iff _ covers_iff

/-- **A text is like a pattern just when the pattern covers it, case aside**: both replaced by
the lowercase expansions of their characters, the text splits into runs, one for each character
of the pattern, where a `%` stands for any run, a `_` for one character and every other
character for itself. -/
theorem isLike_iff_covers (text pattern : String) :
    isLike text pattern = true ↔
      ∃ runs, List.Forall₂ StandsFor (Text.fold pattern.toList) runs ∧
        runs.flatten = Text.fold text.toList := by
  rw [isLike, covers_iff, Covers]

-- The first `%` is settled at the first `x`; the second is resumed.
example : isLike "AxbxbC" "%X%b_" = true := by cbv

end LayeredStore.Like
