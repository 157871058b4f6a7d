import LayeredStore.Proofs.StoredValues
import LayeredStore.Settings
import LayeredStore.Storage.TypedMap

/-! # Stored forms are read back

Every kind of data is read back from the text it is stored as (`Stored.forms_round_trip`), so
different data have different texts.  Two things are taken for granted of the reader of
documents: the shortest text of a float is read as the same bits (`Binary64.Kept`), and arrays
and objects are not nested inside each other more deeply than it follows (`Json.depth`).  All
else is in the forms themselves: every tag is one that its reader knows, no name occurs twice,
and the members of a dictionary come in the order of their keys.
-/
namespace LayeredStore

/-! ### Documents -/

namespace Json

mutual
/-- How many arrays and objects are nested inside each other. -/
def depth : Json → Nat
  | array items => depthOfItems items + 1
  | object members => depthOfMembers members + 1
  | null | boolean _ | number _ | string _ | illegible => 0

/-- The depth of the deepest of several items. -/
def depthOfItems : List Json → Nat
  | [] => 0
  | item :: rest => max item.depth (depthOfItems rest)

/-- The depth of the deepest of several members. -/
def depthOfMembers : List (String × Json) → Nat
  | [] => 0
  | (_, value) :: rest => max value.depth (depthOfMembers rest)
end

theorem depthOfItems_le {items : List Json} {n : Nat} :
    depthOfItems items ≤ n ↔ ∀ item ∈ items, item.depth ≤ n := by
  induction items with
  | nil => simp [depthOfItems]
  | cons item rest ih => rw [depthOfItems, Nat.max_le, ih, List.forall_mem_cons]

theorem depthOfMembers_le {members : List (String × Json)} {n : Nat} :
    depthOfMembers members ≤ n ↔ ∀ m ∈ members, m.2.depth ≤ n := by
  induction members with
  | nil => simp [depthOfMembers]
  | cons m rest ih => rw [depthOfMembers, Nat.max_le, ih, List.forall_mem_cons]

/-- An array takes one level and leaves the others to its items. -/
theorem depth_array_le {items : List Json} {room : Nat} : (array items).depth ≤ room ↔
    ∃ inside, room = inside + 1 ∧ ∀ item ∈ items, item.depth ≤ inside := by
  rw [depth]
  cases room with
  | zero => simp
  | succ inside => simp [depthOfItems_le]

/-- So does an object. -/
theorem depth_object_le {members : List (String × Json)} {room : Nat} :
    (object members).depth ≤ room ↔
      ∃ inside, room = inside + 1 ∧ ∀ m ∈ members, m.2.depth ≤ inside := by
  rw [depth]
  cases room with
  | zero => simp
  | succ inside => simp [depthOfMembers_le]

theorem wellWritten_array {items : List Json} :
    (array items).WellWritten ↔ ∀ item ∈ items, item.WellWritten :=
  ⟨fun h => by cases h; assumption, .array⟩

theorem wellWritten_object {members : List (String × Json)} :
    (object members).WellWritten ↔ ∀ m ∈ members, m.2.WellWritten :=
  ⟨fun h => by cases h; assumption, .object⟩

end Json

/-- A dictionary is what its entries make up. -/
theorem Dictionary.ofList_toList {κ α : Type} [Ord κ] [Std.TransOrd κ] [Std.LawfulEqOrd κ]
    [DecidableEq κ] (d : Dictionary κ α) : ofList d.toList = d :=
  ofList_eq (nodup_keys d) fun key value => (get?_eq_some_iff d key value).symm

namespace Stored

/-! ### Parts of structures -/

/-- Of members with different names one has the name of a member. -/
theorem filter_name {members : List (String × Json)} (h : (members.map Prod.fst).Nodup)
    {m : String × Json} (hm : m ∈ members) : members.filter (fun n => n.1 == m.1) = [m] := by
  induction members with
  | nil => cases hm
  | cons n rest ih =>
    obtain ⟨hnot, hrest⟩ := List.nodup_cons.1 h
    rcases List.mem_cons.1 hm with rfl | hm
    · have hnone : rest.filter (fun n => n.1 == m.1) = [] := by
        refine List.filter_eq_nil_iff.2 fun n hn heq => hnot ?_
        exact List.mem_map.2 ⟨n, hn, by simpa using heq⟩
      rw [List.filter_cons_of_pos (by simp), hnone]
    · have hne : n.1 ≠ m.1 := fun heq => hnot (List.mem_map.2 ⟨m, hm, heq.symm⟩)
      rw [List.filter_cons_of_neg (by simpa using hne), ih hrest hm]

/-- Where no name occurs twice, the parts of an object are its members. -/
theorem parts?_object (members : List (String × Json)) (h : (members.map Prod.fst).Nodup)
    (room : Nat) : parts? (members.map Prod.fst) (room + 1) (.object members) =
      some (members.map fun m => some m.2) := by
  rw [parts?, List.mapM_map]
  refine Json.mapM_eq_some_map fun m hm => ?_
  dsimp only [Function.comp_apply]
  rw [filter_name h hm]

/-! ### Forms that are read back -/

/-- Data are read back from the texts and bytes that they are stored as, and so no two of them
are stored alike. -/
structure RoundTrips {α : Type} [Stored α] (legible : α → Prop) : Prop where
  /-- The text is read as the datum. -/
  text : ∀ {a : α}, legible a → ofText? (Stored.text a) = some a
  /-- So are the bytes, whatever map they are kept in. -/
  decode : ∀ {a : α}, legible a → ∀ {σ : Type} (m : TypedMap σ α) (key : String),
    m.decode key (bytes a) = .ok a
  /-- Different data have different texts. -/
  distinct : ∀ {a b : α}, legible a → legible b → a ≠ b → Stored.text a ≠ Stored.text b

/-- It comes down to the document of a datum: it is well written, and read as the datum. -/
theorem RoundTrips.of_document {α : Type} [Stored α] {legible : α → Prop}
    (hwritten : ∀ a, legible a → (toJson a).WellWritten)
    (hread : ∀ a, legible a → ofJson? nesting (toJson a) = some a) : RoundTrips legible := by
  have htext : ∀ {a : α}, legible a → ofText? (Stored.text a) = some a := by
    intro a ha
    rw [ofText?, ofCharacters?, Stored.text, String.toList_ofList, (hwritten a ha).ofText?_text,
      Option.bind_some, hread a ha]
  refine ⟨htext, fun {a} ha σ m key => ?_, fun {a b} ha hb hne heq => hne ?_⟩
  · rw [TypedMap.decode, ofBytes?_bytes (hwritten a ha), hread a ha]
  · have hsame := htext hb
    rw [← heq, htext ha] at hsame
    exact Option.some.inj hsame

end Stored

/-! ### Values and their dictionaries -/

/-- The float is finite, and the shortest text of it is read as the same bits. -/
structure Binary64.Kept (x : Binary64) : Prop where
  /-- It is no infinity and no NaN. -/
  finite : x.isFinite = true
  /-- Its text is read as itself. -/
  read : (Decimal.Layout.stored.numeral x).approximation = x

namespace Value

mutual
/-- The floats of a value at any depth. -/
def floats : Value → List Binary64
  | .float x => [x]
  | .list items => floatsOf items
  | .integer _ | .text _ | .boolean _ | .blob _ => []

/-- The floats of several values. -/
def floatsOf : List Value → List Binary64
  | [] => []
  | v :: rest => v.floats ++ floatsOf rest
end

mutual
/-- A value is read back if its floats are kept and it is not nested too deep. -/
theorem readsBack_of_depth_le : (v : Value) → {room : Nat} →
    (Stored.valueJson v).depth ≤ room → (∀ x ∈ v.floats, x.Kept) → v.ReadsBack room
  | .integer n, room, hdepth, _ => by
    obtain ⟨inside, rfl, -⟩ := Json.depth_object_le.1 hdepth
    exact .integer n
  | .float x, room, hdepth, hfloats => by
    obtain ⟨inside, rfl, -⟩ := Json.depth_object_le.1 hdepth
    have hkept := hfloats x List.mem_cons_self
    exact .float hkept.finite hkept.read
  | .text s, room, hdepth, _ => by
    obtain ⟨inside, rfl, -⟩ := Json.depth_object_le.1 hdepth
    exact .text s
  | .boolean b, room, hdepth, _ => by
    obtain ⟨inside, rfl, -⟩ := Json.depth_object_le.1 hdepth
    exact .boolean b
  | .blob bytes, room, hdepth, _ => by
    obtain ⟨inside, rfl, harray⟩ := Json.depth_object_le.1 hdepth
    obtain ⟨inside, rfl, -⟩ := Json.depth_array_le.1 (harray _ List.mem_cons_self)
    exact .blob bytes
  | .list items, room, hdepth, hfloats => by
    obtain ⟨inside, rfl, harray⟩ := Json.depth_object_le.1 hdepth
    obtain ⟨inside, rfl, hitems⟩ := Json.depth_array_le.1 (harray _ List.mem_cons_self)
    exact .list (readsBack_of_depths_le items hitems hfloats)

theorem readsBack_of_depths_le : (items : List Value) → {room : Nat} →
    (∀ j ∈ Stored.valuesJson items, j.depth ≤ room) → (∀ x ∈ floatsOf items, x.Kept) →
      ∀ v ∈ items, v.ReadsBack room
  | [], _, _, _ => nofun
  | v :: rest, room, hdepths, hfloats => by
    obtain ⟨hdepth, hdepths⟩ := List.forall_mem_cons.1 hdepths
    obtain ⟨hfloats, hothers⟩ := List.forall_mem_append.1 hfloats
    exact List.forall_mem_cons.2 ⟨readsBack_of_depth_le v hdepth hfloats,
      readsBack_of_depths_le rest hdepths hothers⟩
end

end Value

/-- The floats of the values of a dictionary, at any depth. -/
def Dictionary.floats (d : Dictionary String Value) : List Binary64 := Value.floatsOf d.values

namespace Stored

theorem readsBack_of_dictionary {d : Dictionary String Value} {room : Nat}
    (hdepth : (dictionaryJson d).depth ≤ room) (hfloats : ∀ x ∈ d.floats, x.Kept) :
    ∃ inside, room = inside + 1 ∧ ∀ e ∈ d.toList, e.2.ReadsBack inside := by
  obtain ⟨inside, rfl, hmembers⟩ := Json.depth_object_le.1 hdepth
  have hdepths : ∀ j ∈ valuesJson d.values, j.depth ≤ inside := by
    intro j hj
    rw [valuesJson_eq_map] at hj
    obtain ⟨v, hv, rfl⟩ := List.mem_map.1 hj
    obtain ⟨e, he, rfl⟩ := List.mem_map.1 hv
    exact hmembers _ (List.mem_map_of_mem he)
  exact ⟨inside, rfl, fun e he =>
    Value.readsBack_of_depths_le d.values hdepths hfloats e.2 (List.mem_map_of_mem he)⟩

theorem wellWritten_dictionaryJson (d : Dictionary String Value) :
    (dictionaryJson d).WellWritten := by
  refine .object fun m hm => ?_
  obtain ⟨e, -, rfl⟩ := List.mem_map.1 hm
  exact wellWritten_valueJson e.2

theorem dictionary?_dictionaryJson {d : Dictionary String Value} {room : Nat}
    (h : ∀ e ∈ d.toList, e.2.ReadsBack room) :
    dictionary? value? (room + 1) (dictionaryJson d) = some d := by
  have hall : (d.toList.map fun e => (e.1, valueJson e.2)).mapM
      (fun m => (value? room m.2).map (m.1, ·)) = some d.toList :=
    Json.mapM_map fun e he => by rw [value?_valueJson (h e he), Option.map_some]
  rw [dictionaryJson, dictionary?, hall, Option.map_some, Dictionary.ofList_toList]

/-! ### Conditions -/

theorem operator?_operatorName (room : Nat) (op : Operator) :
    operator? room (.string (operatorName op)) = some op := by
  have hchoice : choice? room (.string (operatorName op)) = some (operatorName op) := by
    cases room <;> rfl
  rw [operator?, hchoice]
  cases op <;> rfl

mutual
theorem wellWritten_conditionJson : (c : Condition) → (conditionJson c).WellWritten
  | .compare field op arg => by
    simp [conditionJson, Json.wellWritten_object, Json.WellWritten.string]
  | .and parts => by
    simpa [conditionJson, Json.wellWritten_object, Json.wellWritten_array] using
      wellWritten_conditionsJson parts
  | .or parts => by
    simpa [conditionJson, Json.wellWritten_object, Json.wellWritten_array] using
      wellWritten_conditionsJson parts
  | .not part => by
    simpa [conditionJson, Json.wellWritten_object] using wellWritten_conditionJson part

theorem wellWritten_conditionsJson : (parts : List Condition) →
    ∀ j ∈ conditionsJson parts, j.WellWritten
  | [] => nofun
  | part :: rest =>
    List.forall_mem_cons.2 ⟨wellWritten_conditionJson part, wellWritten_conditionsJson rest⟩
end

mutual
/-- A condition is read back if it is not nested too deep. -/
theorem condition?_conditionJson : (c : Condition) → {room : Nat} →
    (conditionJson c).depth ≤ room → condition? room (conditionJson c) = some c
  | .compare field op arg, room, hdepth => by
    obtain ⟨inside, rfl, hpayload⟩ := Json.depth_object_le.1 hdepth
    obtain ⟨inside, rfl, -⟩ := Json.depth_object_le.1 (hpayload _ List.mem_cons_self)
    have hparts := parts?_object [("field", .string field),
      ("op", .string (operatorName op)), ("arg", .string arg)] (by simp) inside
    simp only [List.map_cons, List.map_nil] at hparts
    simp [conditionJson, condition?, comparison?, hparts, string?, operator?_operatorName]
  -- One level is that of the tag, and one that of the array of parts, be it empty or not.
  | .and parts, room, hdepth => by
    obtain ⟨inside, rfl, hpayload⟩ := Json.depth_object_le.1 hdepth
    obtain ⟨inside, rfl, hparts⟩ := Json.depth_array_le.1 (hpayload _ List.mem_cons_self)
    simp only [conditionJson, condition?, conditions?_conditionsJson parts hparts, Option.map_some]
  | .or parts, room, hdepth => by
    obtain ⟨inside, rfl, hpayload⟩ := Json.depth_object_le.1 hdepth
    obtain ⟨inside, rfl, hparts⟩ := Json.depth_array_le.1 (hpayload _ List.mem_cons_self)
    simp only [conditionJson, condition?, conditions?_conditionsJson parts hparts, Option.map_some]
  | .not part, room, hdepth => by
    obtain ⟨inside, rfl, hpayload⟩ := Json.depth_object_le.1 hdepth
    have hpart := condition?_conditionJson part (hpayload _ List.mem_cons_self)
    simp only [conditionJson, condition?, hpart, Option.map_some]

theorem conditions?_conditionsJson : (parts : List Condition) → {room : Nat} →
    (∀ j ∈ conditionsJson parts, j.depth ≤ room) →
      (conditionsJson parts).mapM (condition? room) = some parts
  | [], _, _ => rfl
  | part :: rest, room, hdepths => by
    obtain ⟨hdepth, hdepths⟩ := List.forall_mem_cons.1 hdepths
    rw [conditionsJson, List.mapM_cons, condition?_conditionJson part hdepth,
      conditions?_conditionsJson rest hdepths]
    rfl
end

/-! ### Orders and settings -/

theorem term?_termJson (room : Nat) (t : SortTerm) : term? (room + 1) (termJson t) = some t := by
  have hparts := parts?_object [("field", .string t.field),
    ("descending", .boolean t.descending)] (by simp) room
  simp only [List.map_cons, List.map_nil] at hparts
  simp [term?, termJson, hparts, string?, boolean?]

theorem unsigned?_ofInt {n : Nat} (h : n < UInt64.size) : unsigned? (Json.ofInt n) = some n := by
  have hhigh : (n : Int) ≤ UInt64.size - 1 := by omega
  rw [unsigned?, intWithin?_ofInt (Int.natCast_nonneg n) hhigh, Option.map_some, Int.toNat_natCast]

theorem unsigned?_toNat (n : UInt64) :
    (unsigned? (Json.ofInt n.toNat)).map UInt64.ofNat = some n := by
  rw [unsigned?_ofInt n.toNat_lt, Option.map_some, UInt64.ofNat_toNat]

theorem binary64?_ofBinary64 {x : Binary64} (h : x.Kept) :
    binary64? (Json.ofBinary64 x) = some x := by
  simp [Json.ofBinary64, h.finite, binary64?, h.read]

/-! ### All forms -/

theorem roundTrips_value :
    RoundTrips fun v : Value => (toJson v).depth ≤ nesting ∧ ∀ x ∈ v.floats, x.Kept := by
  have hreads : ∀ v : Value, ((toJson v).depth ≤ nesting ∧ ∀ x ∈ v.floats, x.Kept) →
      v.ReadsBack nesting := fun v h => v.readsBack_of_depth_le h.1 h.2
  exact .of_document (fun v _ => wellWritten_valueJson v)
    fun v h => value?_valueJson (hreads v h)

theorem roundTrips_dictionary :
    RoundTrips fun d : Dictionary String Value =>
      (toJson d).depth ≤ nesting ∧ ∀ x ∈ d.floats, x.Kept := by
  refine .of_document (fun d _ => wellWritten_dictionaryJson d) fun d h => ?_
  obtain ⟨inside, hroom, hvalues⟩ := readsBack_of_dictionary h.1 h.2
  rw [hroom]
  exact dictionary?_dictionaryJson hvalues

theorem roundTrips_record :
    RoundTrips fun r : Record => (toJson r).depth ≤ nesting ∧ ∀ x ∈ r.fields.floats, x.Kept := by
  have hinside : ∀ r : Record, ((toJson r).depth ≤ nesting ∧ ∀ x ∈ r.fields.floats, x.Kept) →
      ∃ inside, nesting = inside + 2 ∧ ∀ e ∈ r.fields.toList, e.2.ReadsBack inside := by
    rintro r ⟨hdepth, hfloats⟩
    obtain ⟨room, hroom, hparts⟩ := Json.depth_object_le.1 hdepth
    obtain ⟨inside, rfl, hvalues⟩ := readsBack_of_dictionary
      (hparts ("fields", dictionaryJson r.fields) (by simp)) hfloats
    exact ⟨inside, hroom, hvalues⟩
  refine .of_document (fun r _ => ?_) fun r h => ?_
  · refine Json.wellWritten_object.2 (List.forall_mem_cons.2 ⟨.string r.id,
      List.forall_mem_cons.2 ⟨wellWritten_dictionaryJson r.fields, nofun⟩⟩)
  · obtain ⟨inside, hroom, hvalues⟩ := hinside r h
    rw [hroom]
    have hparts := parts?_object [("id", .string r.id),
      ("fields", dictionaryJson r.fields)] (by simp) (inside + 1)
    simp only [List.map_cons, List.map_nil] at hparts
    simp [toJson, ofJson?, hparts, string?, dictionary?_dictionaryJson hvalues]

theorem roundTrips_condition : RoundTrips fun c : Condition => (toJson c).depth ≤ nesting :=
  .of_document (fun c _ => wellWritten_conditionJson c) fun c h => condition?_conditionJson c h

/-- Nothing in an order is nested beyond what a reader follows. -/
theorem roundTrips_order : RoundTrips fun _ : SortOrder => True := by
  refine .of_document (fun o _ => ?_) fun o _ => ?_
  · refine Json.wellWritten_object.2 (List.forall_mem_cons.2 ⟨Json.wellWritten_array.2 ?_, nofun⟩)
    intro j hj
    obtain ⟨t, -, rfl⟩ := List.mem_map.1 hj
    simp [termJson, Json.wellWritten_object, Json.WellWritten.string, Json.WellWritten.boolean]
  · have hparts := parts?_object [("keys", .array (o.terms.map termJson))]
      (by simp) 126
    have hterms : (o.terms.map termJson).mapM (term? 125) = some o.terms :=
      Json.mapM_map fun t _ => term?_termJson 124 t
    simp only [List.map_cons, List.map_nil] at hparts
    simp [toJson, ofJson?, nesting, hparts, items?, hterms]

/-- The document of a seed, or null for none. -/
def seedJson : Option UInt64 → Json
  | some seed => Json.ofInt seed.toNat
  | none => .null

theorem seedOf?_seedJson (seed? : Option UInt64) :
    Settings.seedOf? (seedJson seed?) = some seed? := by
  cases seed? with
  | none => rfl
  | some seed =>
    show (unsigned? (Json.ofInt seed.toNat)).map (fun n => some (UInt64.ofNat n)) = _
    rw [unsigned?_ofInt seed.toNat_lt, Option.map_some, UInt64.ofNat_toNat]

/-- The members of the document of settings. -/
def settingsMembers (s : Settings) : List (String × Json) :=
  [("default_lifespan_secs", Json.ofInt s.lifespan.toNat),
    ("maintenance_probability", Json.ofBinary64 s.probability),
    ("maintenance_seed", seedJson s.seed?), ("lock_stripes", Json.ofInt s.stripes),
    ("query_layer", .string s.queryLayer.name)]

theorem toJson_settings (s : Settings) : toJson s = .object (settingsMembers s) := rfl

/-- Of settings the chance is the only float; a count of stripes has 64 bits. -/
theorem roundTrips_settings :
    RoundTrips fun s : Settings => s.stripes < UInt64.size ∧ s.probability.Kept := by
  refine .of_document (fun s _ => ?_) fun s h => ?_
  · have hseed : (seedJson s.seed?).WellWritten := by
      cases s.seed? with
      | none => exact .null
      | some seed => exact .ofInt _
    rw [toJson_settings]
    simp [settingsMembers, Json.wellWritten_object, Json.WellWritten.string,
      Json.WellWritten.ofInt, Json.WellWritten.ofBinary64, hseed]
  · obtain ⟨hstripes, hkept⟩ := h
    have hparts := parts?_object (settingsMembers s) (by simp [settingsMembers]) 126
    have hlayer : ((choice? 126 (.string s.queryLayer.name)).bind fun name =>
        [QueryLayer.highest, .lowest].find? (·.name == name)) = some s.queryLayer := by
      cases s.queryLayer <;> rfl
    have hnames : (settingsMembers s).map Prod.fst = Settings.partNames := rfl
    rw [hnames] at hparts
    rw [toJson_settings]
    simp only [ofJson?, nesting, hparts]
    simp only [settingsMembers, List.map_cons, List.map_nil, Settings.orDefault, unsigned?_toNat,
      binary64?_ofBinary64 hkept, seedOf?_seedJson, unsigned?_ofInt hstripes, hlayer]
    rfl

/-- **All stored forms are read back**: those of values, records, dictionaries of arguments and
conditions that are not nested beyond what a reader follows, and those of orders and settings,
as long as every float is finite and its shortest text is read as the same bits. -/
theorem forms_round_trip :
    (RoundTrips fun v : Value => (toJson v).depth ≤ nesting ∧ ∀ x ∈ v.floats, x.Kept) ∧
    (RoundTrips fun r : Record => (toJson r).depth ≤ nesting ∧ ∀ x ∈ r.fields.floats, x.Kept) ∧
    (RoundTrips fun c : Condition => (toJson c).depth ≤ nesting) ∧
    (RoundTrips fun _ : SortOrder => True) ∧
    (RoundTrips fun args : Bindings => (toJson args).depth ≤ nesting ∧
      ∀ x ∈ args.floats, x.Kept) ∧
    (RoundTrips fun s : Settings => s.stripes < UInt64.size ∧ s.probability.Kept) :=
  ⟨roundTrips_value, roundTrips_record, roundTrips_condition, roundTrips_order,
    roundTrips_dictionary, roundTrips_settings⟩

/-- A list with lists in it, negative zero among its floats. -/
def mixedList : Value :=
  .list [.list [.float (Binary64.nearest true 5 2), .float (Binary64.nearest true 0 1)],
    .text "say \"so\"\n\\", .integer Int64.minValue, .blob [0, 255], .list []]

/-- A record that holds it. -/
def mixedRecord : Record := ⟨"r", .ofList [("items", mixedList), ("done", .boolean false)]⟩

/-- A condition with combinators that combine nothing. -/
def emptyAlternatives : Condition :=
  .not (.or [.and [], .compare "num" .isIn "0", .not (.or [])])

/-- They are all read back from their texts. -/
theorem forms_round_trip_mixed :
    ofText? (text mixedList) = some mixedList ∧ ofText? (text mixedRecord) = some mixedRecord ∧
      ofText? (text emptyAlternatives) = some emptyAlternatives ∧
      ofText? (text Settings.default) = some Settings.default ∧
      text mixedList ≠ text (Value.list []) := by
  obtain ⟨hvalue, hrecord, hcondition, -, -, hsettings⟩ := forms_round_trip
  have hkept : ∀ x ∈ mixedList.floats, x.Kept := by
    have hhalves : (Binary64.nearest true 5 2).Kept := ⟨by decide +kernel, by decide +kernel⟩
    have hzero : (Binary64.nearest true 0 1).Kept := ⟨by decide, by decide +kernel⟩
    exact List.forall_mem_cons.2 ⟨hhalves, List.forall_mem_cons.2 ⟨hzero, nofun⟩⟩
  have hchance : Settings.default.probability.Kept := ⟨by decide +kernel, by decide +kernel⟩
  have hlist : (toJson mixedList).depth ≤ nesting := by decide +kernel
  exact ⟨hvalue.text ⟨hlist, hkept⟩, hrecord.text ⟨by decide +kernel, hkept⟩,
    hcondition.text (by decide +kernel), hsettings.text ⟨by decide, hchance⟩,
    hvalue.distinct ⟨hlist, hkept⟩ ⟨by decide +kernel, nofun⟩ nofun⟩

end Stored

end LayeredStore
