import LayeredStore.Record.Names
import LayeredStore.Proofs.Patterns

/-! # Patterns and the characters of a text

Patterns are matched along lowercase expansions, so `_` stands for one character of the
expansion.  For every character but U+0130, capital I with a dot, that is one character of the
text: all others expand to one character (`Text.lowercase_eq_small`), and no expansion but its
own holds a wildcard (`Text.mem_lowercase_iff`).  So without U+0130 the expansions split as text
and pattern do (`covers_fold_iff`).

U+0130 counts as the two characters that it expands to (`isLike_iff_splits_spelled`): it takes two
`_`, and it is like these two characters.  A text is therefore matched by its own characters, with
whatever pattern, just when these two do not stand together in its expansion
(`isLike_splits_iff`).
-/
namespace LayeredStore

namespace Text

/-- Capital I with a dot, the one character whose lowercase expansion is longer. -/
def dottedI : Char := '\u0130'

theorem lowercase_dottedI : lowercase dottedI = ['i', '\u0307'] := rfl

theorem length_lowercase_eq (c : Char) : (lowercase c).length = if c = dottedI then 2 else 1 := by
  have hdotted : c.toNat = 0x130 ↔ c = dottedI := @Char.toNat_inj c dottedI
  rw [length_lowercase]
  exact if_congr hdotted rfl rfl

/-- The first character of the lowercase expansion. -/
def small (c : Char) : Char := (lowercase c).headD c

theorem lowercase_eq_small {c : Char} (h : c ≠ dottedI) : lowercase c = [small c] := by
  have hlength := length_lowercase_eq c
  rw [if_neg h] at hlength
  obtain ⟨d, hd⟩ := List.length_eq_one_iff.1 hlength
  rw [small, hd]
  rfl

theorem eq_dottedI_of_lowercase {c : Char} (h : lowercase c = lowercase dottedI) : c = dottedI := by
  refine Decidable.byContradiction fun hne => ?_
  have hlength := length_lowercase_eq c
  rw [h, if_neg hne] at hlength
  cases hlength

/-- The small letters of capitals beyond ASCII come after all signs of patterns. -/
theorem le_small {r : CaseRun} (hr : r ∈ caseRuns) {n : Nat} (hn : r.contains n = true) :
    0x61 ≤ r.small n := by
  have hfirst : ∀ r ∈ caseRuns, 0x61 ≤ r.first + r.offset := by decide +kernel
  have hlow := hfirst r hr
  simp only [CaseRun.contains, Bool.and_eq_true, decide_eq_true_eq] at hn
  unfold CaseRun.small
  omega

theorem toNat_ofNat (n : Nat) : (Char.ofNat n).toNat = n ∨ Char.ofNat n = '\u0000' := by
  by_cases hvalid : n.isValidChar
  · rw [Char.ofNat, dif_pos hvalid]
    exact .inl rfl
  · rw [Char.ofNat, dif_neg hvalid]
    exact .inr rfl

/-- **A wildcard is its own expansion and part of no other.** -/
theorem mem_lowercase_iff {w : Char} (hw : w = '%' ∨ w = '_') (c : Char) :
    w ∈ lowercase c ↔ c = w := by
  have hlow : w.toNat < 0x61 := by rcases hw with rfl | rfl <;> decide
  unfold lowercase
  by_cases hascii : c.toNat < 0x80
  · rw [if_pos hascii, List.mem_singleton]
    rcases hw with rfl | rfl
    · exact of_ascii (p := fun c => '%' = c.toLower ↔ c = '%') (by decide) hascii
    · exact of_ascii (p := fun c => '_' = c.toLower ↔ c = '_') (by decide) hascii
  -- Beyond ASCII there is no wildcard, and small letters come after both.
  have hne : c ≠ w := by
    rintro rfl
    omega
  rw [if_neg hascii, iff_false_right hne]
  split
  · rcases hw with rfl | rfl <;> decide
  · split
    · next r hr =>
      have hcontains : r.contains c.toNat = true := @List.find?_some _ (·.contains c.toNat) r _ hr
      have hsmall := le_small (List.mem_of_find?_eq_some hr) hcontains
      rw [List.mem_singleton]
      rintro rfl
      rcases toNat_ofNat (r.small c.toNat) with heq | hzero
      · omega
      · rw [hzero] at hw
        exact absurd hw (by decide)
    · rw [List.mem_singleton]
      exact hne.symm

/-- The wildcards are the small letters of themselves alone. -/
theorem small_eq_iff {w : Char} (hw : w = '%' ∨ w = '_') (c : Char) : small c = w ↔ c = w := by
  by_cases hc : c = dottedI
  · subst hc
    rcases hw with rfl | rfl <;> decide
  · rw [← mem_lowercase_iff hw c, lowercase_eq_small hc, List.mem_singleton, eq_comm]

/-- The expansion of a text without U+0130 is as long as the text. -/
theorem fold_eq_map {text : List Char} (h : dottedI ∉ text) : fold text = text.map small := by
  rw [fold, List.map_eq_flatMap]
  refine List.flatMap_congr fun c hc => lowercase_eq_small ?_
  rintro rfl
  exact h hc

theorem fold_append_dottedI (before after : List Char) :
    fold (before ++ dottedI :: after) = fold before ++ (lowercase dottedI ++ fold after) := by
  rw [fold, List.flatMap_append, List.flatMap_cons]
  rfl

/-- Every U+0130 makes the expansion longer. -/
theorem length_fold (text : List Char) : (fold text).length = text.length + text.count dottedI := by
  induction text with
  | nil => rfl
  | cons c text ih =>
    rw [fold, List.flatMap_cons, List.length_append, ← fold, ih, length_lowercase_eq,
      List.count_cons, List.length_cons]
    by_cases hc : c = dottedI
    · simp [hc]
      omega
    · simp [hc]
      omega

/-- The text with U+0130 written as the two characters that it expands to. -/
def spelled (text : List Char) : List Char :=
  text.flatMap fun c => if c = dottedI then lowercase dottedI else [c]

theorem dottedI_notMem_spelled (text : List Char) : dottedI ∉ spelled text := by
  rw [spelled, List.mem_flatMap]
  rintro ⟨c, -, hc⟩
  split at hc
  · exact absurd hc (by decide)
  · next hne => exact hne (List.mem_singleton.1 hc).symm

/-- **Writing U+0130 as two characters changes no expansion.** -/
theorem fold_spelled (text : List Char) : fold (spelled text) = fold text := by
  rw [fold, spelled, List.flatMap_assoc, fold]
  refine List.flatMap_congr fun c _ => ?_
  split
  · next hc =>
    subst hc
    decide
  · exact List.flatMap_singleton ..

end Text

namespace Like

/-- What a character of a pattern takes from a text as it is given, case aside. -/
inductive Takes : Char → List Char → Prop
  | any (run : List Char) : Takes '%' run
  | one (c : Char) : Takes '_' [c]
  | alike {c d : Char} : c ≠ '%' → c ≠ '_' → Text.lowercase c = Text.lowercase d → Takes c [d]

/-- The text itself splits into runs, one for each character of the pattern and taken by it. -/
def Splits (text pattern : List Char) : Prop :=
  ∃ runs, List.Forall₂ Takes pattern runs ∧ runs.flatten = text

theorem splits_nil {text : List Char} : Splits text [] ↔ text = [] := exists_runs_nil

theorem splits_cons {d : Char} {text pattern : List Char} :
    Splits text (d :: pattern) ↔
      ∃ run rest, Takes d run ∧ Splits rest pattern ∧ run ++ rest = text := exists_runs_cons

/-! ### Without U+0130 -/

theorem standsFor_one_iff {run : List Char} : StandsFor '_' run ↔ ∃ c, run = [c] := by
  constructor
  · rintro (_ | c | ⟨-, h⟩)
    · exact ⟨c, rfl⟩
    · exact absurd rfl h
  · rintro ⟨c, rfl⟩
    exact .one c

theorem standsFor_same_iff {d : Char} {run : List Char} (hd : ¬(d = '%' ∨ d = '_')) :
    StandsFor d run ↔ run = [d] := by
  obtain ⟨hpercent, hone⟩ := not_or.1 hd
  constructor
  · rintro (_ | _ | _)
    · exact absurd rfl hpercent
    · exact absurd rfl hone
    · rfl
  · rintro rfl
    exact .same hpercent hone

theorem takes_one_iff {run : List Char} : Takes '_' run ↔ ∃ c, run = [c] := by
  constructor
  · rintro (_ | c | ⟨-, h, -⟩)
    · exact ⟨c, rfl⟩
    · exact absurd rfl h
  · rintro ⟨c, rfl⟩
    exact .one c

theorem takes_alike_iff {d : Char} {run : List Char} (hd : ¬(d = '%' ∨ d = '_')) :
    Takes d run ↔ ∃ c, run = [c] ∧ Text.lowercase d = Text.lowercase c := by
  obtain ⟨hpercent, hone⟩ := not_or.1 hd
  constructor
  · rintro (_ | _ | ⟨-, -, halike⟩)
    · exact absurd rfl hpercent
    · exact absurd rfl hone
    · exact ⟨_, rfl, halike⟩
  · rintro ⟨c, rfl, halike⟩
    exact .alike hpercent hone halike

theorem standsFor_small_iff {d : Char} {run : List Char} (hd : d ≠ Text.dottedI)
    (hrun : Text.dottedI ∉ run) : StandsFor (Text.small d) (run.map Text.small) ↔ Takes d run := by
  by_cases hwild : d = '%' ∨ d = '_'
  · rw [(Text.small_eq_iff hwild d).2 rfl]
    rcases hwild with rfl | rfl
    · exact iff_of_true (.any _) (.any _)
    · rw [standsFor_one_iff, takes_one_iff]
      simp [List.map_eq_singleton_iff]
  · have hsmall : ¬(Text.small d = '%' ∨ Text.small d = '_') := by
      rwa [Text.small_eq_iff (.inl rfl), Text.small_eq_iff (.inr rfl)]
    rw [standsFor_same_iff hsmall, takes_alike_iff hwild, List.map_eq_singleton_iff]
    refine exists_congr fun c => and_congr_right ?_
    rintro rfl
    have hc : c ≠ Text.dottedI := fun h => hrun (List.mem_singleton.2 h.symm)
    rw [Text.lowercase_eq_small hd, Text.lowercase_eq_small hc, List.singleton_inj, eq_comm]

/-- **Without U+0130 the expansions split as text and pattern do.** -/
theorem covers_fold_iff {text pattern : List Char} (htext : Text.dottedI ∉ text)
    (hpattern : Text.dottedI ∉ pattern) :
    Covers (Text.fold text) (Text.fold pattern) ↔ Splits text pattern := by
  rw [Text.fold_eq_map htext, Text.fold_eq_map hpattern]
  induction pattern generalizing text with
  | nil => rw [List.map_nil, covers_nil, splits_nil, List.map_eq_nil_iff]
  | cons d pattern ih =>
    obtain ⟨hd, hpattern⟩ := not_or.1 (mt List.mem_cons.2 hpattern)
    rw [List.map_cons, covers_cons, splits_cons]
    constructor
    · rintro ⟨_, _, hstands, hcovers, hsplit⟩
      obtain ⟨run, rest, rfl, rfl, rfl⟩ := List.map_eq_append_iff.1 hsplit.symm
      obtain ⟨hrun, hrest⟩ := not_or.1 (mt List.mem_append.2 htext)
      exact ⟨run, rest, (standsFor_small_iff (Ne.symm hd) hrun).1 hstands,
        (ih hrest hpattern).1 hcovers, rfl⟩
    · rintro ⟨run, rest, htakes, hsplits, rfl⟩
      obtain ⟨hrun, hrest⟩ := not_or.1 (mt List.mem_append.2 htext)
      exact ⟨run.map Text.small, rest.map Text.small,
        (standsFor_small_iff (Ne.symm hd) hrun).2 htakes, (ih hrest hpattern).2 hsplits,
        List.map_append.symm⟩

/-! ### Where U+0130 shows -/

/-- A pattern that goes on with plain characters covers only what goes on with them. -/
theorem Covers.isPrefix {word after text : List Char} (hword : ∀ d ∈ word, ¬(d = '%' ∨ d = '_'))
    (h : Covers text (word ++ after)) : word <+: text := by
  induction word generalizing text with
  | nil => exact List.nil_prefix
  | cons d word ih =>
    obtain ⟨hd, hword⟩ := List.forall_mem_cons.1 hword
    obtain ⟨run, rest, hrun, hrest, rfl⟩ := covers_cons.1 h
    rw [(standsFor_same_iff hd).1 hrun]
    exact List.cons_prefix_cons.2 ⟨rfl, ih hword hrest⟩

/-- Plain characters of a pattern stand together in what it covers. -/
theorem Covers.isInfix {before word after text : List Char}
    (hword : ∀ d ∈ word, ¬(d = '%' ∨ d = '_')) (h : Covers text (before ++ (word ++ after))) :
    word <:+: text := by
  induction before generalizing text with
  | nil => exact (h.isPrefix hword).isInfix
  | cons d before ih =>
    obtain ⟨run, rest, -, hrest, rfl⟩ := covers_cons.1 h
    exact (ih hrest).trans (List.suffix_append run rest).isInfix

/-- Only U+0130 is taken by itself. -/
theorem Splits.dottedI_mem {text pattern : List Char} (h : Splits text pattern)
    (hmem : Text.dottedI ∈ pattern) : Text.dottedI ∈ text := by
  induction pattern generalizing text with
  | nil => cases hmem
  | cons d pattern ih =>
    obtain ⟨run, rest, hrun, hrest, rfl⟩ := splits_cons.1 h
    rw [List.mem_append]
    rcases List.mem_cons.1 hmem with rfl | hmem
    · obtain ⟨c, rfl, halike⟩ := (takes_alike_iff (by decide)).1 hrun
      rw [Text.eq_dottedI_of_lowercase halike.symm]
      exact .inl (List.mem_singleton.2 rfl)
    · exact .inr (ih hrest hmem)

/-- As many `_` as a text has characters split it. -/
theorem splits_replicate (text : List Char) : Splits text (List.replicate text.length '_') := by
  induction text with
  | nil => exact splits_nil.2 rfl
  | cons c text ih => exact splits_cons.2 ⟨[c], text, .one c, ih, rfl⟩

/-- Signs `_` alone count characters. -/
theorem Covers.length_eq {text : List Char} {n : Nat} (h : Covers text (List.replicate n '_')) :
    text.length = n := by
  rw [← List.append_nil (List.replicate n '_')] at h
  have hplain : '%' ∉ List.replicate n '_' := fun hmem =>
    absurd (List.eq_of_mem_replicate hmem) (by decide)
  obtain ⟨run, rest, rfl, hlength, hrest⟩ := h.behind hplain
  rw [covers_nil.1 hrest, List.append_nil, hlength, List.length_replicate]

/-! ### Texts and patterns -/

/-- Without U+0130 a text is like the patterns that it splits along. -/
theorem isLike_iff_splits {text pattern : String} (htext : Text.dottedI ∉ text.toList)
    (hpattern : Text.dottedI ∉ pattern.toList) :
    isLike text pattern = true ↔ Splits text.toList pattern.toList := by
  rw [isLike, covers_iff, covers_fold_iff htext hpattern]

/-- **A text is like a pattern just when it splits along the pattern**, U+0130 counting as the
two characters that it expands to. -/
theorem isLike_iff_splits_spelled (text pattern : String) :
    isLike text pattern = true ↔
      Splits (Text.spelled text.toList) (Text.spelled pattern.toList) := by
  rw [isLike, covers_iff, ← Text.fold_spelled text.toList, ← Text.fold_spelled pattern.toList,
    covers_fold_iff (Text.dottedI_notMem_spelled _) (Text.dottedI_notMem_spelled _)]

/-- The two characters that U+0130 expands to are plain. -/
theorem plain_lowercase_dottedI : ∀ d ∈ Text.lowercase Text.dottedI, ¬(d = '%' ∨ d = '_') := by
  intro d hd
  rw [Text.lowercase_dottedI] at hd
  rcases List.mem_cons.1 hd with rfl | hd
  · decide
  · obtain rfl := List.mem_singleton.1 hd
    decide

/-- A text that is like a pattern with U+0130 has its expansion. -/
theorem isInfix_of_isLike {text pattern : String} (h : isLike text pattern = true)
    (hmem : Text.dottedI ∈ pattern.toList) :
    Text.lowercase Text.dottedI <:+: Text.fold text.toList := by
  obtain ⟨before, after, hpattern⟩ := List.append_of_mem hmem
  rw [isLike, covers_iff, hpattern, Text.fold_append_dottedI] at h
  exact h.isInfix plain_lowercase_dottedI

/-- A text with the expansion of U+0130 is like it, with `%` around. -/
theorem isLike_of_isInfix {text : String}
    (h : Text.lowercase Text.dottedI <:+: Text.fold text.toList) :
    isLike text "%\u0130%" = true := by
  obtain ⟨before, after, hsplit⟩ := h
  have hpattern : Text.fold "%\u0130%".toList = ['%', 'i', '\u0307', '%'] := by decide
  rw [isLike, covers_iff, hpattern]
  refine ⟨[before, ['i'], ['\u0307'], after], ?_, ?_⟩
  · exact .cons (.any before) (.cons (.same (by decide) (by decide))
      (.cons (.same (by decide) (by decide)) (.cons (.any after) .nil)))
  · rw [← hsplit, Text.lowercase_dottedI]
    simp

/-- As many `_` as a text has characters are too few for the expansion of U+0130. -/
theorem not_isLike_replicate {text : String} (h : Text.dottedI ∈ text.toList) :
    isLike text (String.ofList (List.replicate text.toList.length '_')) = false := by
  have hplain : Text.dottedI ∉ List.replicate text.toList.length '_' := fun hmem =>
    absurd (List.eq_of_mem_replicate hmem) (by decide)
  have hsmall : Text.small '_' = '_' := (Text.small_eq_iff (.inr rfl) '_').2 rfl
  rw [← Bool.not_eq_true, isLike, covers_iff, String.toList_ofList, Text.fold_eq_map hplain,
    List.map_replicate, hsmall]
  intro hcovers
  have hlength := hcovers.length_eq
  have hcount := List.count_pos_iff.2 h
  rw [Text.length_fold] at hlength
  omega

/-- **`_` stands for one character, if U+0130 counts as two.**  A text is like a pattern just when
it splits along the pattern, both with U+0130 written as its expansion.  As it is given it splits
along the patterns that it is like, whatever the pattern, just when its expansion does not hold
that of U+0130. -/
theorem isLike_splits_iff (text : String) :
    (∀ pattern : String, isLike text pattern = true ↔
      Splits (Text.spelled text.toList) (Text.spelled pattern.toList)) ∧
    ((∀ pattern : String, isLike text pattern = true ↔ Splits text.toList pattern.toList) ↔
      ¬Text.lowercase Text.dottedI <:+: Text.fold text.toList) := by
  refine ⟨isLike_iff_splits_spelled text, ?_, ?_⟩
  · intro hlaw hinfix
    by_cases hmem : Text.dottedI ∈ text.toList
    · have hlike := (hlaw (String.ofList (List.replicate text.toList.length '_'))).2
        (by rw [String.toList_ofList]; exact splits_replicate _)
      rw [not_isLike_replicate hmem] at hlike
      cases hlike
    · have hsplits := (hlaw "%\u0130%").1 (isLike_of_isInfix hinfix)
      exact hmem (hsplits.dottedI_mem (by decide))
  · intro hinfix pattern
    have htext : Text.dottedI ∉ text.toList := by
      intro hmem
      obtain ⟨before, after, htext⟩ := List.append_of_mem hmem
      rw [htext, Text.fold_append_dottedI] at hinfix
      exact hinfix ⟨_, _, List.append_assoc ..⟩
    by_cases hmem : Text.dottedI ∈ pattern.toList
    · refine iff_of_false (fun hlike => hinfix (isInfix_of_isLike hlike hmem)) fun hsplits => ?_
      exact htext (hsplits.dottedI_mem hmem)
    · exact isLike_iff_splits htext hmem

/-- One `_` splits U+0130, but U+0130 is not like it. -/
theorem not_isLike_splits :
    ¬∀ text pattern : String, isLike text pattern = true ↔ Splits text.toList pattern.toList := by
  intro hlaw
  have hsplits : Splits "\u0130".toList "_".toList :=
    ⟨[['\u0130']], .cons (.one '\u0130') .nil, by decide⟩
  have hunlike : isLike "\u0130" "_" = false :=
    not_isLike_replicate (List.mem_singleton.2 (Eq.refl Text.dottedI))
  have hlike := (hlaw "\u0130" "_").2 hsplits
  rw [hunlike] at hlike
  cases hlike

end Like

end LayeredStore
