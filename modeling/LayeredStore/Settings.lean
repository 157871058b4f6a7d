import LayeredStore.Stored

/-! # Settings of a stack

Settings say how long written data live, how often cheap upkeep turns into a full run,
how many lock stripes serve identifiers, and which layer answers queries.  They are read
from a document in which every member may be missing; a value that cannot work is
refused with the reason.
-/
namespace LayeredStore

/-- Which layer of a stack answers scans and queries. -/
inductive QueryLayer
  /-- The first layer, usually a cache. -/
  | highest
  /-- The last layer, usually the durable one. -/
  | lowest
  deriving DecidableEq

/-- The index of the answering layer among a number of layers. -/
def QueryLayer.index : QueryLayer → Nat → Nat
  | highest, _ => 0
  | lowest, layers => layers - 1

/-- The stored name. -/
def QueryLayer.name : QueryLayer → String
  | highest => "highest"
  | lowest => "lowest"

/-- What the stacks of a catalog have in common. -/
structure Settings where
  /-- How long written data live, in seconds; zero is for ever. -/
  lifespan : UInt64
  /-- The chance that cheap upkeep becomes a full run. -/
  probability : Binary64
  /-- Where the draws start, if that is fixed. -/
  seed? : Option UInt64
  /-- How many stripes of locks there are. -/
  stripes : Nat
  /-- The layer that answers queries. -/
  queryLayer : QueryLayer
  deriving DecidableEq

namespace Settings

/-- Data live for ever, one upkeep in fifty is a full run, and the lowest of the layers
answers queries. -/
def default : Settings :=
  ⟨0, Binary64.nearest false 2 100, none, 64, .lowest⟩

/-- Why settings cannot work. -/
inductive Fault
  /-- The text is no settings document. -/
  | malformed
  /-- The chance is not between zero and one. -/
  | probability (x : Binary64)
  /-- There is no lock stripe. -/
  | stripes
  deriving DecidableEq

/-- The wording of a fault.  What exactly is wrong with a document is not said. -/
def Fault.message : Fault → String
  | malformed => "malformed config: <json>"
  | probability x => "maintenance_probability must be within [0, 1], got " ++ x.display
  | stripes => "lock_stripes must be at least 1"

/-- Whether `x` lies between zero and one. -/
def isChance (x : Binary64) : Bool :=
  (Binary64.zero.compare? x).any (·.isLE) && (x.compare? Binary64.one).any (·.isLE)

/-- Refuse settings that cannot work. -/
def validate (s : Settings) : Except Fault Unit :=
  if !isChance s.probability then .error (.probability s.probability)
  else if s.stripes = 0 then .error .stripes
  else .ok ()

/-- The names of the parts in a document. -/
def partNames : List String :=
  ["default_lifespan_secs", "maintenance_probability", "maintenance_seed", "lock_stripes",
    "query_layer"]

/-- A part that may be missing. -/
def orDefault {α : Type} (default : α) (read? : Json → Option α) : Option Json → Option α
  | none => some default
  | some j => read? j

/-- A seed, or null for none. -/
def seedOf? : Json → Option (Option UInt64)
  | .null => some none
  | j => (Stored.unsigned? j).map fun n => some (UInt64.ofNat n)

instance : Stored Settings where
  toJson s := .object
    [("default_lifespan_secs", Json.ofInt s.lifespan.toNat),
      ("maintenance_probability", Json.ofBinary64 s.probability),
      ("maintenance_seed", match s.seed? with
        | some seed => Json.ofInt seed.toNat
        | none => .null),
      ("lock_stripes", Json.ofInt s.stripes),
      ("query_layer", .string s.queryLayer.name)]
  ofJson?
    | room + 1, j =>
      match Stored.parts? partNames (room + 1) j with
      | some [lifespan, probability, seed, stripes, layer] => do
        let lifespan ← orDefault default.lifespan
          (fun j => (Stored.unsigned? j).map UInt64.ofNat) lifespan
        let probability ← orDefault default.probability Stored.binary64? probability
        let seed? ← orDefault default.seed? seedOf? seed
        let stripes ← orDefault default.stripes Stored.unsigned? stripes
        let queryLayer ← orDefault default.queryLayer
          (fun j => (Stored.choice? room j).bind fun name =>
            [QueryLayer.highest, .lowest].find? (·.name == name)) layer
        some ⟨lifespan, probability, seed?, stripes, queryLayer⟩
      | _ => none
    | 0, _ => none

/-- Read settings and check them. -/
def ofText (text : String) : Except Fault Settings :=
  match (Stored.ofText? text : Option Settings) with
  | none => .error .malformed
  | some s =>
    match s.validate with
    | .ok () => .ok s
    | .error fault => .error fault

end Settings

end LayeredStore
