import LayeredStore.Proofs.Placeholders
import Mathlib.Data.List.Basic

/-! # What a condition looks at

A condition names fields and argument keys in its leaves, and it depends on nothing else
(`Condition.sees_named`).  Its list of keys is put together leaf by leaf, each key behind those noted
before unless it is one of them; what has been noted after some leaves is then told by their keys
alone (`Condition.FirstUses`): they are all there, and they stand as they are first used.
-/
namespace LayeredStore.Condition

/-! ### The keys that are noted -/

/-- `noted` lists what occurs among `keys`, in the order of the first occurrences. -/
structure FirstUses (keys noted : List String) : Prop where
  /-- Nothing is missing, and nothing is listed besides. -/
  mem_iff : ∀ key, key ∈ noted ↔ key ∈ keys
  /-- What is listed before another key is used before it. -/
  ordered : noted.Pairwise fun a b => keys.idxOf a < keys.idxOf b

namespace FirstUses

variable {keys noted : List String}

theorem nil : FirstUses [] [] := ⟨fun _ => .rfl, .nil⟩

theorem nodup (h : FirstUses keys noted) : noted.Nodup :=
  h.ordered.imp fun hlt heq => absurd (heq ▸ hlt) (Nat.lt_irrefl _)

/-- One more use. -/
theorem note (h : FirstUses keys noted) (key : String) :
    FirstUses (keys ++ [key]) (noteKey noted key) := by
  have hplace : ∀ a ∈ noted, (keys ++ [key]).idxOf a = keys.idxOf a :=
    fun a ha => List.idxOf_append_of_mem ((h.mem_iff a).1 ha)
  have hordered : noted.Pairwise fun a b => (keys ++ [key]).idxOf a < (keys ++ [key]).idxOf b :=
    h.ordered.imp_of_mem fun ha hb hlt => by rwa [hplace _ ha, hplace _ hb]
  unfold noteKey
  split
  · next hmem =>
    refine ⟨fun k => ?_, hordered⟩
    rw [h.mem_iff, List.mem_append, List.mem_singleton]
    exact ⟨.inl, fun hk => hk.elim id fun he => he ▸ (h.mem_iff key).1 hmem⟩
  · next hnew =>
    have hlast : (keys ++ [key]).idxOf key = keys.length := by
      rw [List.idxOf_append_of_notMem fun hk => hnew ((h.mem_iff key).2 hk), List.idxOf_cons_self,
        Nat.add_zero]
    refine ⟨fun k => ?_, List.pairwise_append.2 ⟨hordered, List.pairwise_singleton _ _, ?_⟩⟩
    · simp only [List.mem_append, h.mem_iff]
    · intro a ha b hb
      rw [List.mem_singleton.1 hb, hlast, hplace a ha]
      exact List.idxOf_lt_length_of_mem ((h.mem_iff a).1 ha)

mutual
/-- What is noted along a condition goes on from what was noted before it. -/
theorem along : ∀ (c : Condition) {keys noted : List String}, FirstUses keys noted →
    FirstUses (keys ++ c.leafKeys) (c.noteArgKeys noted)
  | .compare _ _ arg, _, _, h => h.note arg
  | .and parts, _, _, h => alongAll parts h
  | .or parts, _, _, h => alongAll parts h
  | .not part, _, _, h => along part h

theorem alongAll : ∀ (parts : List Condition) {keys noted : List String}, FirstUses keys noted →
    FirstUses (keys ++ (leavesOf parts).map (·.2.2)) (noteArgKeysOf parts noted)
  | [], keys, _, h => by
    rw [leavesOf, List.map_nil, List.append_nil]
    exact h
  | part :: rest, _, _, h => by
    rw [leavesOf, List.map_append, ← List.append_assoc]
    exact alongAll rest (along part h)
end

theorem of_argKeys (c : Condition) : FirstUses c.leafKeys c.argKeys := along c nil

end FirstUses

/-! ### What a test asks for -/

/-- Two records and two bindings give leaves the same fields and the same arguments. -/
structure Alike (leaves : List (String × Operator × String)) (r r' : Record)
    (args args' : Bindings) : Prop where
  /-- The fields are the same. -/
  field : ∀ leaf ∈ leaves, r.field? leaf.1 = r'.field? leaf.1
  /-- The arguments are the same. -/
  arg : ∀ leaf ∈ leaves, args.get? leaf.2.2 = args'.get? leaf.2.2

section

variable {r r' : Record} {args args' : Bindings}

theorem Alike.mono {leaves fewer : List (String × Operator × String)}
    (h : Alike leaves r r' args args') (hsub : fewer ⊆ leaves) : Alike fewer r r' args args' :=
  ⟨fun leaf hleaf => h.field leaf (hsub hleaf), fun leaf hleaf => h.arg leaf (hsub hleaf)⟩

mutual
/-- The same leaves have the same outcome. -/
theorem test_alike : ∀ c : Condition, Alike c.leaves r r' args args' →
    c.test r args = c.test r' args'
  | .compare field op arg, h => by
    have hleaf : (field, op, arg) ∈ (Condition.compare field op arg).leaves := by simp [leaves]
    rw [test, test, h.field _ hleaf, h.arg _ hleaf]
  | .and parts, h => by rw [test, test, testAll_alike parts h]
  | .or parts, h => by rw [test, test, testAny_alike parts h]
  | .not part, h => by rw [test, test, test_alike part h]

theorem testAll_alike : ∀ parts : List Condition, Alike (leavesOf parts) r r' args args' →
    testAll r args parts = testAll r' args' parts
  | [], _ => rfl
  | part :: rest, h => by
    rw [leavesOf] at h
    have hpart := test_alike part (h.mono (List.subset_append_left ..))
    have hrest := testAll_alike rest (h.mono (List.subset_append_right ..))
    rw [testAll, testAll, hpart, hrest]

theorem testAny_alike : ∀ parts : List Condition, Alike (leavesOf parts) r r' args args' →
    testAny r args parts = testAny r' args' parts
  | [], _ => rfl
  | part :: rest, h => by
    rw [leavesOf] at h
    have hpart := test_alike part (h.mono (List.subset_append_left ..))
    have hrest := testAny_alike rest (h.mono (List.subset_append_right ..))
    rw [testAny, testAny, hpart, hrest]
end

end

/-- **A condition sees what it names.** It lists the argument keys of its leaves, each once and where
it is first used.  On two records that show the same under every field that a leaf names, and under
two bindings that give the listed keys the same arguments, it has the same outcome. -/
theorem sees_named (c : Condition) :
    c.argKeys.Nodup ∧ (∀ key, key ∈ c.argKeys ↔ ∃ leaf ∈ c.leaves, leaf.2.2 = key) ∧
      (c.argKeys.Pairwise fun a b => c.leafKeys.idxOf a < c.leafKeys.idxOf b) ∧
      ∀ (r r' : Record) (args args' : Bindings),
        (∀ leaf ∈ c.leaves, r.field? leaf.1 = r'.field? leaf.1) →
        (∀ key ∈ c.argKeys, args.get? key = args'.get? key) →
          c.test r args = c.test r' args' := by
  have huses := FirstUses.of_argKeys c
  refine ⟨huses.nodup, fun key => ?_, huses.ordered, fun r r' args args' hfields hargs => ?_⟩
  · rw [huses.mem_iff, leafKeys, List.mem_map]
  · refine test_alike c ⟨hfields, fun leaf hleaf => hargs _ ?_⟩
    exact (huses.mem_iff _).2 (List.mem_map_of_mem hleaf)

/-- Three leaves with two arguments. -/
def threeLeaves : Condition :=
  .and [.leaf "A" .gt "0", .not (.or [.leaf "b" .lt "1", .leaf "_oid" .eq "0"])]

example : threeLeaves.argKeys = ["0", "1"] := rfl

/-- Another value under a field that is not named, and an argument that is not asked for. -/
theorem sees_named_threeLeaves :
    let r := (Record.blank "x").set "a" (.integer 3)
    let args : Bindings := .ofList [("0", .integer 2), ("1", .integer 5)]
    (∀ leaf ∈ threeLeaves.leaves,
        r.field? leaf.1 = (r.set "c" (.text "more")).field? leaf.1) ∧
      (∀ key ∈ threeLeaves.argKeys, args.get? key = (args.insert "2" (.text "more")).get? key) ∧
      threeLeaves.test r args = true ∧
      threeLeaves.test (r.set "c" (.text "more")) (args.insert "2" (.text "more")) = true := by
  intro r args
  have hfields : ∀ leaf ∈ threeLeaves.leaves,
      r.field? leaf.1 = (r.set "c" (.text "more")).field? leaf.1 := by decide +kernel
  have hargs : ∀ key ∈ threeLeaves.argKeys,
      args.get? key = (args.insert "2" (.text "more")).get? key := by decide +kernel
  have htest : threeLeaves.test r args = true := by decide +kernel
  exact ⟨hfields, hargs, htest,
    ((sees_named threeLeaves).2.2.2 r _ args _ hfields hargs).symm.trans htest⟩

end LayeredStore.Condition
