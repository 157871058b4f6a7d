import LayeredStore.Record.Names
import LayeredStore.Table.Schema
import Mathlib.Data.List.Basic

/-! # Schemas that are being put together

A declaration is refused, or enters its field, or finds it entered with the same type
(`Declaration.Outcome`).  On a new schema exactly the fields are entered that can be
(`Schema.mem_keys_after`), and of the declarations that a field gets, the first that can be one
decides its type, whatever becomes of the others (`Schema.get?_after`).  All of several declarations
succeed exactly if the schema ends up with the type that each of them gives
(`Schema.answers_ok_iff`), and this does not depend on their order.

Names that differ in their capitals or in blanks at their ends are spellings of one field.
-/
namespace LayeredStore

/-- A field's name, in any spelling, and its type. -/
structure Declaration where
  /-- The name as it is given. -/
  name : String
  /-- The type. -/
  type : FieldType
  deriving DecidableEq

namespace Declaration

/-- The name under which the field is entered. -/
def key (d : Declaration) : String := normalizeName d.name

/-- The name can be that of a field. -/
def Fit (d : Declaration) : Prop := d.key ≠ "" ∧ d.key ≠ idField

instance (d : Declaration) : Decidable d.Fit := inferInstanceAs (Decidable (_ ∧ _))

theorem Fit.fieldKey {d : Declaration} (h : d.Fit) : FieldKey d.key :=
  ⟨normalizeName_normalizeName d.name, h.1, h.2⟩

/-- Make the declaration. -/
def carryOut (d : Declaration) : Action Schema StoreError Unit :=
  Schema.declareInPlace d.name d.type

theorem carryOut_of_declare {s t : Schema} {name : String} {type : FieldType}
    (h : s.declare name type = .ok t) : (⟨name, type⟩ : Declaration).carryOut s = (.ok (), t) := by
  rw [carryOut, Schema.declareInPlace_apply]
  simp only [h]

/-- What becomes of a declaration: the answer and the schema afterwards. -/
inductive Outcome (d : Declaration) (s : Schema) : Except StoreError Unit × Schema → Prop
  /-- The name is refused. -/
  | unfit (h : ¬d.Fit) (e : StoreError) : Outcome d s (.error e, s)
  /-- There is such a field, with another type. -/
  | conflicting {type : FieldType} (h : d.Fit) (hother : s.fields.get? d.key = some type)
      (hne : type ≠ d.type) (e : StoreError) : Outcome d s (.error e, s)
  /-- There is such a field already. -/
  | again (h : d.Fit) (hsame : s.fields.get? d.key = some d.type) : Outcome d s (.ok (), s)
  /-- The field is new. -/
  | entered (h : d.Fit) (hnew : s.fields.get? d.key = none) :
      Outcome d s (.ok (), s.enter d.key d.type h.fieldKey)

theorem carryOut_outcome (d : Declaration) (s : Schema) : d.Outcome s (d.carryOut s) := by
  rw [carryOut, Schema.declareInPlace_apply, Schema.declare]
  by_cases hfit : d.Fit
  · have hname : ¬(normalizeName d.name = "" ∨ normalizeName d.name = idField) := not_or.2 hfit
    rw [dif_neg hname]
    cases hget : s.fields.get? (normalizeName d.name) with
    | none => exact .entered hfit hget
    | some type =>
      by_cases hsame : type = d.type
      · subst hsame
        simp only [if_pos]
        exact .again hfit hget
      · simp only [if_neg hsame]
        exact .conflicting hfit hget hsame _
  · have hname : normalizeName d.name = "" ∨ normalizeName d.name = idField := by
      rwa [Fit, ← not_or, not_not] at hfit
    rw [dif_pos hname]
    exact .unfit hfit _

variable {d : Declaration} {s t : Schema}

/-- **A declaration that is refused leaves the schema as it is.** -/
theorem eq_of_carryOut_error {e : StoreError} (h : d.carryOut s = (.error e, t)) : t = s := by
  have houtcome := d.carryOut_outcome s
  rw [h] at houtcome
  cases houtcome <;> rfl

/-- A declaration is accepted if the field can be declared and has no other type. -/
theorem carryOut_ok_iff :
    (d.carryOut s).1 = .ok () ↔
      d.Fit ∧ ∀ type, s.fields.get? d.key = some type → type = d.type := by
  have houtcome := d.carryOut_outcome s
  generalize d.carryOut s = result at houtcome ⊢
  cases houtcome with
  | unfit h => exact ⟨nofun, fun hfit => absurd hfit.1 h⟩
  | conflicting h hother hne => exact ⟨nofun, fun hfit => absurd (hfit.2 _ hother) hne⟩
  | again h hsame =>
    exact ⟨fun _ => ⟨h, fun type htype => Option.some.inj (htype.symm.trans hsame)⟩, fun _ => rfl⟩
  | entered h hnew =>
    exact ⟨fun _ => ⟨h, fun type htype => absurd (htype.symm.trans hnew) nofun⟩, fun _ => rfl⟩

/-- A declaration gives its field its type, unless the field has one. -/
theorem get?_carryOut (d : Declaration) (s : Schema) (key : String) :
    (d.carryOut s).2.fields.get? key =
      (s.fields.get? key).or (if d.Fit ∧ d.key = key then some d.type else none) := by
  have houtcome := d.carryOut_outcome s
  generalize d.carryOut s = result at houtcome ⊢
  cases houtcome with
  | unfit h => rw [if_neg fun hfit => h hfit.1, Option.or_none]
  | conflicting h hother =>
    split
    · next hkey => rw [← hkey.2, hother, Option.some_or]
    · rw [Option.or_none]
  | again h hsame =>
    split
    · next hkey => rw [← hkey.2, hsame, Option.some_or]
    · rw [Option.or_none]
  | entered h hnew =>
    by_cases hkey : d.key = key
    · subst hkey
      rw [Schema.enter, Dictionary.get?_insert_self, hnew, Option.none_or, if_pos ⟨h, rfl⟩]
    · rw [Schema.enter, Dictionary.get?_insert_of_ne _ hkey, if_neg fun hfit => hkey hfit.2,
        Option.or_none]

theorem table_carryOut (d : Declaration) (s : Schema) : (d.carryOut s).2.table = s.table := by
  have houtcome := d.carryOut_outcome s
  generalize d.carryOut s = result at houtcome ⊢
  cases houtcome <;> rfl

end Declaration

namespace Schema

/-! ### Runs of declarations -/

/-- The schema after declarations, whatever becomes of each. -/
def after (s : Schema) (ds : List Declaration) : Schema := ds.foldl (fun s d => (d.carryOut s).2) s

/-- The answers to declarations one after another. -/
def answers : Schema → List Declaration → List (Except StoreError Unit)
  | _, [] => []
  | s, d :: ds => (d.carryOut s).1 :: answers (d.carryOut s).2 ds

/-- The type of the first declaration of a field that can be one. -/
def firstDeclared (ds : List Declaration) (key : String) : Option FieldType :=
  (ds.find? fun d => d.Fit ∧ d.key = key).map (·.type)

variable {s t : Schema} {ds es : List Declaration}

@[simp] theorem after_nil (s : Schema) : s.after [] = s := rfl

theorem after_cons (s : Schema) (d : Declaration) (ds : List Declaration) :
    s.after (d :: ds) = (d.carryOut s).2.after ds := by
  rw [after, List.foldl_cons, after]

theorem after_append (s : Schema) (ds later : List Declaration) :
    s.after (ds ++ later) = (s.after ds).after later := List.foldl_append

theorem table_after (s : Schema) (ds : List Declaration) : (s.after ds).table = s.table := by
  induction ds generalizing s with
  | nil => rfl
  | cons d ds ih => rw [after_cons, ih, d.table_carryOut]

/-- **The first declaration decides.** -/
theorem get?_after (s : Schema) (ds : List Declaration) (key : String) :
    (s.after ds).fields.get? key = (s.fields.get? key).or (firstDeclared ds key) := by
  induction ds generalizing s with
  | nil => rw [after_nil, firstDeclared, List.find?_nil, Option.map_none, Option.or_none]
  | cons d ds ih =>
    rw [after_cons, ih, d.get?_carryOut, Option.or_assoc, firstDeclared, firstDeclared,
      List.find?_cons]
    by_cases hd : d.Fit ∧ d.key = key <;> simp [hd]

/-- A field keeps its type. -/
theorem get?_after_of_some {key : String} {type : FieldType} (h : s.fields.get? key = some type)
    (ds : List Declaration) : (s.after ds).fields.get? key = some type := by
  rw [get?_after, h, Option.some_or]

theorem exists_of_firstDeclared {key : String} {type : FieldType}
    (h : firstDeclared ds key = some type) : ∃ d ∈ ds, d.Fit ∧ d.key = key ∧ d.type = type := by
  obtain ⟨d, hd, htype⟩ := Option.map_eq_some_iff.1 h
  have hkey : d.Fit ∧ d.key = key := by simpa using List.find?_some hd
  exact ⟨d, List.mem_of_find?_eq_some hd, hkey.1, hkey.2, htype⟩

theorem exists_firstDeclared {d : Declaration} (hd : d ∈ ds) (hfit : d.Fit) :
    ∃ type, firstDeclared ds d.key = some type := by
  refine Option.isSome_iff_exists.1 ?_
  rw [firstDeclared, Option.isSome_map, List.find?_isSome]
  exact ⟨d, hd, decide_eq_true ⟨hfit, rfl⟩⟩

/-- All declarations succeed if each has the type that its field has in the end. -/
theorem answers_ok_iff :
    (∀ answer ∈ s.answers ds, answer = .ok ()) ↔
      ∀ d ∈ ds, d.Fit ∧ (s.after ds).fields.get? d.key = some d.type := by
  induction ds generalizing s with
  | nil => exact ⟨fun _ => nofun, fun _ => nofun⟩
  | cons d ds ih =>
    rw [answers, List.forall_mem_cons, List.forall_mem_cons, ih, after_cons]
    refine and_congr_left' ?_
    rw [Declaration.carryOut_ok_iff, get?_after, d.get?_carryOut]
    refine and_congr_right fun hfit => ?_
    rw [if_pos ⟨hfit, rfl⟩]
    cases s.fields.get? d.key with
    | none => simp
    | some type => simp

/-- A schema without fields has been given each of its fields by a declaration. -/
theorem exists_of_get?_after (hempty : s.fields = .empty) {key : String} {type : FieldType}
    (h : (s.after ds).fields.get? key = some type) :
    ∃ d ∈ ds, d.Fit ∧ d.key = key ∧ d.type = type := by
  rw [get?_after, hempty, Dictionary.get?_empty, Option.none_or] at h
  exact exists_of_firstDeclared h

/-- **A new schema comes to have the fields that can be declared**, under their normal names. -/
theorem mem_keys_after (hempty : s.fields = .empty) (key : String) :
    key ∈ (s.after ds).fields.keys ↔ (∃ d ∈ ds, d.key = key) ∧ FieldKey key := by
  rw [Dictionary.mem_keys_iff]
  constructor
  · rintro ⟨type, htype⟩
    obtain ⟨d, hd, hfit, rfl, -⟩ := exists_of_get?_after hempty htype
    exact ⟨⟨d, hd, rfl⟩, hfit.fieldKey⟩
  · rintro ⟨⟨d, hd, rfl⟩, hkey⟩
    rw [get?_after, hempty, Dictionary.get?_empty, Option.none_or]
    exact exists_firstDeclared hd ⟨hkey.nonempty, hkey.unreserved⟩

/-- **The order of declarations that all succeed does not matter.** -/
theorem after_perm (hempty : s.fields = .empty) (hperm : ds.Perm es)
    (h : ∀ answer ∈ s.answers ds, answer = .ok ()) : s.after es = s.after ds := by
  have hfinal := answers_ok_iff.1 h
  have htable : (s.after es).table = (s.after ds).table := by rw [table_after, table_after]
  have hfields : (s.after es).fields = (s.after ds).fields := by
    refine Dictionary.ext_get? fun key => ?_
    cases hes : (s.after es).fields.get? key with
    | some type =>
      obtain ⟨d, hd, -, rfl, rfl⟩ := exists_of_get?_after hempty hes
      exact (hfinal d (hperm.mem_iff.2 hd)).2.symm
    | none =>
      cases hds : (s.after ds).fields.get? key with
      | none => rfl
      | some type =>
        obtain ⟨d, hd, hfit, rfl, -⟩ := exists_of_get?_after hempty hds
        obtain ⟨type, htype⟩ := exists_firstDeclared (hperm.mem_iff.1 hd) hfit
        rw [get?_after, htype] at hes
        exact absurd hes (by simp)
  exact Schema.ext htable hfields

theorem fields_of_new {table : String} (h : Schema.new table = .ok s) : s.fields = .empty := by
  unfold Schema.new at h
  split at h
  · cases h
    rfl
  · cases h

/-- **Schemas are well formed and only grow.** On a new schema, whatever is declared in whatever
spelling: its fields are those that were declared, each under its normal name, but for the empty and
the reserved name; a declaration that is refused leaves the schema as it is; a field keeps its type
under all further declarations, and to declare it again, in any spelling, succeeds for that type and
no other.  Declarations that all succeed in one order all succeed in every other, and make the same
schema. -/
theorem declarations_last {table : String} (hnew : Schema.new table = .ok s) :
    (∀ ds key, key ∈ (s.after ds).fields.keys ↔
      (∃ d ∈ ds, normalizeName d.name = key) ∧ normalizeName key = key ∧ key ≠ "" ∧
        key ≠ idField) ∧
    (∀ ds (d : Declaration) e t, d.carryOut (s.after ds) = (.error e, t) → t = s.after ds) ∧
    (∀ ds later field type, (s.after ds).type? field = some type →
      (s.after (ds ++ later)).type? field = some type ∧
        ∀ d : Declaration, normalizeName d.name = normalizeName field →
          ((d.carryOut (s.after (ds ++ later))).1 = .ok () ↔ d.type = type)) ∧
    (∀ ds es : List Declaration, ds.Perm es → (∀ answer ∈ s.answers ds, answer = .ok ()) →
      (∀ answer ∈ s.answers es, answer = .ok ()) ∧ s.after es = s.after ds) := by
  have hempty := fields_of_new hnew
  refine ⟨fun ds key => ?_, fun ds d e t h => Declaration.eq_of_carryOut_error h,
    fun ds later field type htype => ?_, fun ds es hperm h => ?_⟩
  · rw [mem_keys_after hempty]
    exact and_congr_right fun _ => ⟨fun h => ⟨h.normal, h.nonempty, h.unreserved⟩,
      fun h => ⟨h.1, h.2.1, h.2.2⟩⟩
  · have hlater : (s.after (ds ++ later)).type? field = some type := by
      rw [after_append]
      exact get?_after_of_some htype later
    refine ⟨hlater, fun d hspelling => ?_⟩
    have hget : (s.after (ds ++ later)).fields.get? d.key = some type := by
      rw [Declaration.key, hspelling]
      exact hlater
    have hkey := Schema.keyed _ d.key ((Dictionary.mem_keys_iff _ d.key).2 ⟨type, hget⟩)
    rw [Declaration.carryOut_ok_iff, hget]
    exact ⟨fun h => (h.2 type rfl).symm, fun h => ⟨⟨hkey.nonempty, hkey.unreserved⟩,
      fun other hother => Option.some.inj hother ▸ h.symm⟩⟩
  · have hsame := after_perm hempty hperm h
    refine ⟨answers_ok_iff.2 fun d hd => ?_, hsame⟩
    rw [hsame]
    exact answers_ok_iff.1 h d (hperm.mem_iff.2 hd)

example : ((Schema.ofFields "t" [] (by decide +kernel)).after
    [⟨"a", .text⟩, ⟨"A", .text⟩, ⟨"a", .integer⟩, ⟨"_OID", .text⟩]).fields =
      .ofList [("a", .text)] := rfl

/-- Two fields, one of them in two spellings. -/
def spellings : List Declaration := [⟨" A ", .text⟩, ⟨"b\u2003", .float⟩, ⟨"a", .text⟩]

/-- All spellings succeed in either order, after which their field is no integer. -/
theorem declarations_last_spellings :
    let s : Schema := .ofFields "t" [] (by decide +kernel)
    let filled : Schema := .ofFields "t" [("a", .text), ("b", .float)] (by decide +kernel)
    Schema.new "t" = .ok s ∧ (∀ answer ∈ s.answers spellings, answer = .ok ()) ∧
      s.after spellings = filled ∧ s.after spellings.reverse = filled ∧
      filled.type? "A" = some .text ∧ ((⟨"A", .integer⟩ : Declaration).carryOut filled).1 ≠ .ok () ∧
      ((⟨"A", .integer⟩ : Declaration).carryOut filled).2 = filled := by
  intro s filled
  have hnew : Schema.new "t" = .ok s := rfl
  have hfilled : s.after spellings = filled := rfl
  have hanswers : s.answers spellings = [.ok (), .ok (), .ok ()] := rfl
  have hok : ∀ answer ∈ s.answers spellings, answer = .ok () := by simp [hanswers]
  have htype : filled.type? "A" = some .text := rfl
  obtain ⟨-, hrefused, hkept, hordered⟩ := declarations_last hnew
  have hreverse := (hordered spellings _ (List.reverse_perm _).symm hok).2
  have hagain := (hkept spellings [] "A" .text (hfilled ▸ htype)).2 ⟨"A", .integer⟩ rfl
  rw [List.append_nil, hfilled] at hagain
  have hother : ((⟨"A", .integer⟩ : Declaration).carryOut filled).1 ≠ .ok () :=
    fun h => absurd (hagain.1 h) (by decide)
  refine ⟨hnew, hok, hfilled, hreverse.trans hfilled, htype, hother, ?_⟩
  cases hresult : (⟨"A", .integer⟩ : Declaration).carryOut filled with
  | mk answer t =>
    cases answer with
    | ok u => exact absurd (congrArg Prod.fst hresult) hother
    | error e => exact hrefused spellings ⟨"A", .integer⟩ e t (hfilled.symm ▸ hresult)

end Schema

end LayeredStore
