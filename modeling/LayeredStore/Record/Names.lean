import LayeredStore.Record

/-! # Normal names

Names are compared after their blanks at the ends are taken off and their ASCII capitals
made small.  Doing it again changes nothing (`normalizeName_normalizeName`), so a normal
name stands for every name that normalises to it (`Record.field?_normalizeName`).
-/
namespace LayeredStore

namespace Text

theorem toLower_eq_self {c : Char} (h : 128 ≤ c.toNat) : c.toLower = c := by
  refine dif_neg fun hupper => ?_
  have hle := hupper.2
  rw [UInt32.le_iff_toNat_le] at hle
  have hle : c.toNat ≤ 'Z'.toNat := hle
  have hlast : 'Z'.toNat = 90 := rfl
  omega

/-- What is checked code by code holds of every ASCII character. -/
theorem of_ascii {p : Char → Prop} (hascii : ∀ n < 128, p (Char.ofNat n)) {c : Char}
    (hc : c.toNat < 128) : p c := Char.ofNat_toNat c ▸ hascii c.toNat hc

/-- What holds of ASCII and of the characters that have no small letter holds of all. -/
theorem forall_char_of_ascii {p : Char → Prop} (hascii : ∀ n < 128, p (Char.ofNat n))
    (hother : ∀ c : Char, c.toLower = c → p c) (c : Char) : p c := by
  rcases Nat.lt_or_ge c.toNat 128 with hc | hc
  · exact of_ascii hascii hc
  · exact hother c (toLower_eq_self hc)

theorem isBlank_toLower : ∀ c : Char, isBlank c.toLower = isBlank c := by
  refine forall_char_of_ascii (by decide) fun c h => ?_
  rw [h]

theorem isDigit_toLower : ∀ c : Char, c.toLower.isDigit = c.isDigit := by
  refine forall_char_of_ascii (by decide) fun c h => ?_
  rw [h]

theorem toLower_toLower : ∀ c : Char, c.toLower.toLower = c.toLower := by
  refine forall_char_of_ascii (by decide) fun c h => ?_
  rw [h, h]

theorem toLower_of_not_isLower : ∀ c : Char, c.toLower.isLower = false → c.toLower = c :=
  forall_char_of_ascii (by decide) fun _ h _ => h

/-- Only letters become small letters. -/
theorem eq_of_toLower_eq {c d : Char} (hd : d.isLower = false) (h : c.toLower = d) : c = d := by
  subst h
  exact (toLower_of_not_isLower c hd).symm

theorem toUpper_toLower : ∀ c : Char, c.toLower.toUpper = c.toUpper := by
  refine forall_char_of_ascii (by decide) fun c h => ?_
  rw [h]

theorem toUpper_eq_self {c : Char} (h : 128 ≤ c.toNat) : c.toUpper = c := by
  refine dif_neg fun hlower => ?_
  have hle := hlower.2
  rw [UInt32.le_iff_toNat_le] at hle
  have hle : c.toNat ≤ 'z'.toNat := hle
  have hlast : 'z'.toNat = 122 := rfl
  omega

theorem toLower_toUpper (c : Char) : c.toUpper.toLower = c.toLower := by
  rcases Nat.lt_or_ge c.toNat 128 with hc | hc
  · exact of_ascii (p := fun c => c.toUpper.toLower = c.toLower) (by decide) hc
  · rw [toUpper_eq_self hc]

@[simp] theorem toList_lower (text : String) :
    (lower text).toList = text.toList.map Char.toLower := String.toList_ofList

theorem upper_lower (text : String) : upper (lower text) = upper text := by
  rw [upper, toList_lower, List.map_map, upper]
  congr 1
  exact List.map_congr_left fun c _ => toUpper_toLower c

theorem lower_upper (text : String) : lower (upper text) = lower text := by
  have hupper : (upper text).toList = text.toList.map Char.toUpper := String.toList_ofList
  rw [lower, hupper, List.map_map, lower]
  congr 1
  exact List.map_congr_left fun c _ => toLower_toUpper c

/-! ### Blanks at the ends -/

theorem dropWhile_eq_self {p : Char → Bool} {text : List Char}
    (h : ∀ c ∈ text.head?, p c = false) : text.dropWhile p = text := by
  cases text with
  | nil => rfl
  | cons c rest => simp [h c rfl]

theorem head?_dropWhile {p : Char → Bool} (text : List Char) :
    ∀ c ∈ (text.dropWhile p).head?, p c = false := by
  intro c hc
  have := List.head?_dropWhile_not p text
  rw [Option.mem_def.1 hc] at this
  exact this

/-- Trimming leaves a text alone that has no blank at its ends. -/
theorem trimmed_eq_self {text : List Char} (hfirst : ∀ c ∈ text.head?, isBlank c = false)
    (hlast : ∀ c ∈ text.getLast?, isBlank c = false) : trimmed text = text := by
  rw [← List.head?_reverse] at hlast
  rw [trimmed, dropWhile_eq_self hfirst, dropWhile_eq_self hlast, List.reverse_reverse]

theorem trimmed_trimmed (text : List Char) : trimmed (trimmed text) = trimmed text := by
  refine trimmed_eq_self ?_ ?_
  · -- The first character of what is left is that of the text without its first blanks.
    intro c hc
    have hsplit := List.takeWhile_append_dropWhile (p := isBlank)
      (l := (text.dropWhile isBlank).reverse)
    have hends := congrArg List.reverse hsplit
    rw [List.reverse_append, List.reverse_reverse] at hends
    refine head?_dropWhile text c ?_
    rw [← hends]
    cases ht : trimmed text with
    | nil => rw [ht] at hc; cases hc
    | cons d rest =>
      rw [ht] at hc
      rw [trimmed] at ht
      rw [ht]
      exact hc
  · intro c hc
    rw [trimmed, List.getLast?_reverse] at hc
    exact head?_dropWhile _ c hc

theorem dropWhile_map_toLower (text : List Char) :
    (text.map Char.toLower).dropWhile isBlank = (text.dropWhile isBlank).map Char.toLower := by
  rw [List.dropWhile_map]
  congr 1
  exact congrArg (List.dropWhile · text) (funext isBlank_toLower)

theorem trimmed_map_toLower (text : List Char) :
    trimmed (text.map Char.toLower) = (trimmed text).map Char.toLower := by
  rw [trimmed, dropWhile_map_toLower, ← List.map_reverse, dropWhile_map_toLower,
    ← List.map_reverse, trimmed]

end Text

theorem toList_normalizeName (name : String) :
    (normalizeName name).toList = (Text.trimmed name.toList).map Char.toLower := by
  rw [normalizeName, Text.toList_lower, Text.trim, String.toList_ofList]

/-- **A normal name is its own normal name.** -/
@[simp] theorem normalizeName_normalizeName (name : String) :
    normalizeName (normalizeName name) = normalizeName name := by
  refine String.toList_injective ?_
  rw [toList_normalizeName, toList_normalizeName, Text.trimmed_map_toLower,
    Text.trimmed_trimmed, List.map_map]
  exact List.map_congr_left fun c _ => Text.toLower_toLower c

@[simp] theorem Record.field?_normalizeName (r : Record) (name : String) :
    r.field? (normalizeName name) = r.field? name := by
  rw [Record.field?, normalizeName_normalizeName, ← Record.field?]

end LayeredStore
