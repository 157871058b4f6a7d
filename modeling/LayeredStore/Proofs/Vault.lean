import LayeredStore.Proofs.MapContract
import LayeredStore.Stack
import LayeredStore.Storage.Metered

/-! # Vaults

A vault is a family of backends over one state, each keeping an expiring map of its own
(`Vault.keeps`) and leaving the others' alone (`Vault.others`).  That is all that stacks
and tables know of the maps below them.  Any request may fail at any time, as long as it
fails without effect; `Vault.Reliable` is the extra promise that none does.

A backend moved into a part of a larger state, put behind a gate or metered keeps what it
kept, so a vault of plain maps is still one behind any gates (`Vault.behind`).
-/
namespace LayeredStore

open ExpiringMap

namespace Backend

variable {σ τ α : Type} {b : Backend σ} {contents : σ → ExpiringMap Bytes}

/-- No request changes what is read off the state. -/
def Leaves (b : Backend σ) (look : σ → α) : Prop :=
  ∀ r now s, look (b.perform r now s).2 = look s

theorem Keeps.within {b : Backend τ} {contents : τ → ExpiringMap Bytes} (h : b.Keeps contents)
    (p : Place σ τ) : (b.within p).Keeps fun s => contents (p.read s) where
  answered {r now s s' a} hok := by
    have hpart : b.perform r now (p.read s) = (.ok a, p.read s') := by
      obtain ⟨hout, rfl⟩ := Prod.mk.inj hok
      rw [p.read_write, ← hout]
    exact h.answered hpart
  refused {r now s s' failure} herror := by
    have hpart : b.perform r now (p.read s) = (.error failure, p.read s') := by
      obtain ⟨hout, rfl⟩ := Prod.mk.inj herror
      rw [p.read_write, ← hout]
    exact h.refused hpart

theorem Keeps.guarded (h : b.Keeps contents) {gate : Request → σ → Option StorageFailure × σ}
    (hgate : ∀ r s, contents (gate r s).2 = contents s) : (b.guarded gate).Keeps contents where
  answered {r now s s' a} hok := by
    have hs := hgate r s
    simp only [Backend.guarded] at hok
    split at hok
    · cases hok
    · next s₁ hg =>
      rw [hg] at hs
      rw [← hs]
      exact h.answered hok
  refused {r now s s' failure} herror := by
    have hs := hgate r s
    simp only [Backend.guarded] at herror
    split at herror
    · next s₁ hg =>
      rw [hg] at hs
      cases herror
      exact .of_eq hs
    · next s₁ hg =>
      rw [hg] at hs
      rw [← hs]
      exact h.refused herror

theorem Keeps.metered (h : b.Keeps contents) {stats : Place σ Stats}
    (hstats : ∀ t s, contents (stats.write t s) = contents s) : (b.metered stats).Keeps contents where
  answered {r now s s' a} hok := by
    obtain ⟨hout, rfl⟩ := Prod.mk.inj hok
    rw [hstats]
    exact h.answered (Prod.ext hout rfl)
  refused {r now s s' failure} herror := by
    obtain ⟨hout, rfl⟩ := Prod.mk.inj herror
    rw [hstats]
    exact h.refused (Prod.ext hout rfl)

theorem Succeeds.within {b : Backend τ} {inner : τ → Prop} (h : b.Succeeds inner) (p : Place σ τ)
    {sound : σ → Prop} (hread : ∀ s, sound s → inner (p.read s))
    (hwrite : ∀ t s, sound s → inner t → sound (p.write t s)) : (b.within p).Succeeds sound := by
  intro r now s hs
  obtain ⟨a, t, hok, ht⟩ := h r now (p.read s) (hread s hs)
  refine ⟨a, p.write t s, ?_, hwrite t s hs ht⟩
  show Action.within p (b.perform r now) s = _
  rw [Action.within_apply, hok]

theorem Succeeds.guarded {sound : σ → Prop} (h : b.Succeeds sound)
    {gate : Request → σ → Option StorageFailure × σ}
    (hgate : ∀ r s, sound s → gate r s = (none, s)) : (b.guarded gate).Succeeds sound := by
  intro r now s hs
  obtain ⟨a, t, hok, ht⟩ := h r now s hs
  refine ⟨a, t, ?_, ht⟩
  simp only [Backend.guarded, hgate r s hs, hok]

theorem Succeeds.metered {sound : σ → Prop} (h : b.Succeeds sound) {stats : Place σ Stats}
    (hstats : ∀ t s, sound s → sound (stats.write t s)) : (b.metered stats).Succeeds sound := by
  intro r now s hs
  obtain ⟨a, t, hok, ht⟩ := h r now s hs
  refine ⟨a, stats.write ((stats.read t).count r (.ok a)) t, ?_, hstats _ t ht⟩
  simp only [Backend.metered, hok]

theorem Leaves.within {υ : Type} {b : Backend τ} {p : Place σ τ} {q : Place σ υ}
    (h : q.Independent p) (look : υ → α) : (b.within p).Leaves fun s => look (q.read s) :=
  fun _ _ s => congrArg look (h.read_of_write _ s)

theorem Leaves.guarded {look : σ → α} (h : b.Leaves look)
    {gate : Request → σ → Option StorageFailure × σ} (hgate : ∀ r s, look (gate r s).2 = look s) :
    (b.guarded gate).Leaves look := by
  intro r now s
  have hs := hgate r s
  simp only [Backend.guarded]
  split
  · next s₁ hg => rw [hg] at hs; exact hs
  · next s₁ hg => rw [hg] at hs; exact (h r now s₁).trans hs

theorem Leaves.metered {look : σ → α} (h : b.Leaves look) {stats : Place σ Stats}
    (hstats : ∀ t s, look (stats.write t s) = look s) : (b.metered stats).Leaves look :=
  fun r now s => (hstats _ _).trans (h r now s)

end Backend

/-- Backends over one state that keep an expiring map each, whatever fails. -/
structure Vault (σ ι : Type) [PolicyKeeper σ] where
  /-- The backend of an index. -/
  backend : ι → Backend σ
  /-- The entries of its map. -/
  contents : ι → σ → ExpiringMap Bytes
  /-- Requests are answered rightly or fail without effect. -/
  keeps : ∀ i, (backend i).Keeps (contents i)
  /-- A request reaches one map only. -/
  others : ∀ {i j}, i ≠ j → (backend i).Leaves (contents j)
  /-- Policies are kept apart from the maps. -/
  policies : ∀ i ticket p s, contents i ((PolicyKeeper.policy ticket).write p s) = contents i s
  /-- So is the count of tickets. -/
  issue : ∀ i s, contents i (PolicyKeeper.issue s).2 = contents i s

namespace Vault

variable {σ ι : Type} [PolicyKeeper σ] (v : Vault σ ι)

/-- The live entries of all maps are those of the given maps. -/
def Holds (now : Int64) (s : σ) (m : ι → ExpiringMap Bytes) : Prop :=
  ∀ i, AgreeFrom now (v.contents i s) (m i)

/-- On sound states no request fails, and none makes a state unsound. -/
structure Reliable (sound : σ → Prop) : Prop where
  /-- Requests are answered. -/
  succeeds : ∀ i, (v.backend i).Succeeds sound
  /-- Policies do not matter. -/
  policies : ∀ ticket p s, sound s → sound ((PolicyKeeper.policy ticket).write p s)
  /-- Nor does the count of tickets. -/
  issue : ∀ s, sound s → sound (PolicyKeeper.issue s).2

variable {v}

namespace Holds

variable {now : Int64} {s s' : σ} {m : ι → ExpiringMap Bytes}

theorem later {next : Int64} (h : v.Holds now s m) (hle : now ≤ next) : v.Holds next s m :=
  fun i => (h i).later hle

theorem policy (h : v.Holds now s m) (ticket : Nat) (p : EscalationPolicy) :
    v.Holds now ((PolicyKeeper.policy ticket).write p s) m := by
  intro i
  rw [v.policies]
  exact h i

/-- **A request that is answered is answered by its map, and changes only that.** -/
theorem answered [DecidableEq ι] (h : v.Holds now s m) {i : ι} {r : Request} {a : r.Answer}
    (hok : (v.backend i).perform r now s = (.ok a, s')) :
    (m i).Answers now r a ∧ v.Holds now s' (Function.update m i ((m i).after now r)) := by
  obtain ⟨hanswer, hafter⟩ := (v.keeps i).answered hok
  refine ⟨(h i).answers hanswer, fun j => ?_⟩
  by_cases hj : j = i
  · subst hj
    rw [Function.update_self]
    exact hafter.trans ((h j).after r)
  · have hsame : v.contents j s' = v.contents j s := by
      simpa [hok] using v.others (Ne.symm hj) r now s
    rw [Function.update_of_ne hj, hsame]
    exact h j

/-- A request that fails changes no map. -/
theorem refused (h : v.Holds now s m) {i : ι} {r : Request} {failure : StorageFailure}
    (herror : (v.backend i).perform r now s = (.error failure, s')) : v.Holds now s' m :=
  fun j => by
    by_cases hj : j = i
    · subst hj
      exact ((v.keeps j).refused herror).trans (h j)
    · have hsame : v.contents j s' = v.contents j s := by
        simpa [herror] using v.others (Ne.symm hj) r now s
      rw [hsame]
      exact h j

end Holds

/-- The vault with a gate before each backend, which may refuse any request. -/
def behind (v : Vault σ ι) (gate : ι → Request → σ → Option StorageFailure × σ)
    (hgate : ∀ i j r s, v.contents j (gate i r s).2 = v.contents j s) : Vault σ ι where
  backend i := (v.backend i).guarded (gate i)
  contents := v.contents
  keeps i := (v.keeps i).guarded (hgate i i)
  others {i j} hij := (v.others hij).guarded (hgate i j)
  policies := v.policies
  issue := v.issue

/-- The vault with some of its maps refusing to be written: no put and no removal on them
reaches the map. -/
def refusing (v : Vault σ ι) (refusal : ι → Option StorageFailure) : Vault σ ι :=
  v.behind
    (fun i r s => (match r with
      | .put _ _ _ | .remove _ => refusal i
      | _ => none, s))
    fun _ _ _ _ => rfl

theorem perform_refusing_put (refusal : ι → Option StorageFailure) (i : ι) (key : String)
    (value : Bytes) (expiry now : Int64) (s : σ) :
    ((v.refusing refusal).backend i).perform (.put key value expiry) now s =
      match refusal i with
      | some failure => (.error failure, s)
      | none => (v.backend i).perform (.put key value expiry) now s := by
  simp only [refusing, behind, Backend.guarded]
  cases refusal i <;> rfl

theorem perform_refusing_remove (refusal : ι → Option StorageFailure) (i : ι) (key : String)
    (now : Int64) (s : σ) :
    ((v.refusing refusal).backend i).perform (.remove key) now s =
      match refusal i with
      | some failure => (.error failure, s)
      | none => (v.backend i).perform (.remove key) now s := by
  simp only [refusing, behind, Backend.guarded]
  cases refusal i <;> rfl

/-- Without a refusal nothing changes. -/
theorem backend_refusing_none (v : Vault σ ι) : (v.refusing fun _ => none).backend = v.backend := by
  funext i
  have hperform : ∀ (r : Request) (now : Int64) (s : σ),
      ((v.refusing fun _ => none).backend i).perform r now s = (v.backend i).perform r now s := by
    intro r now s
    cases r <;> rfl
  show Backend.mk (v.backend i).name ((v.refusing fun _ => none).backend i).perform = v.backend i
  rw [show ((v.refusing fun _ => none).backend i).perform = (v.backend i).perform from
    funext fun r => funext fun now => funext fun s => hperform r now s]

/-- The state is sound, and the live entries of all maps are those of the given maps. -/
structure Has (v : Vault σ ι) (sound : σ → Prop) (now : Int64) (s : σ)
    (m : ι → ExpiringMap Bytes) : Prop where
  /-- The state is sound. -/
  sound : sound s
  /-- The maps hold these entries. -/
  holds : v.Holds now s m

theorem Has.later {sound : σ → Prop} {now next : Int64} {s : σ} {m : ι → ExpiringMap Bytes}
    (h : v.Has sound now s m) (hle : now ≤ next) : v.Has sound next s m :=
  ⟨h.sound, h.holds.later hle⟩

/-- **A reliable vault answers.** -/
theorem Reliable.perform [DecidableEq ι] {sound : σ → Prop} (hv : v.Reliable sound) {now : Int64}
    {s : σ} {m : ι → ExpiringMap Bytes} (h : v.Has sound now s m) (i : ι) (r : Request) :
    ∃ a s', (v.backend i).perform r now s = (.ok a, s') ∧ (m i).Answers now r a ∧
      v.Has sound now s' (Function.update m i ((m i).after now r)) := by
  obtain ⟨a, s', hok, hsound⟩ := hv.succeeds i r now s h.sound
  obtain ⟨hanswer, hafter⟩ := h.holds.answered hok
  exact ⟨a, s', hok, hanswer, hsound, hafter⟩

theorem Reliable.put_has [DecidableEq ι] {sound : σ → Prop} (hv : v.Reliable sound) {now : Int64}
    {s : σ} {m : ι → ExpiringMap Bytes} (h : v.Has sound now s m) (i : ι) (key : String)
    (value : Bytes) (expiry : Int64) :
    v.Has sound now ((v.backend i).put now key value expiry s).2
      (Function.update m i ((m i).set key (some (value, expiry)))) := by
  obtain ⟨a, s', hok, -, hafter⟩ := hv.perform h i (.put key value expiry)
  show v.Has sound now ((v.backend i).perform (.put key value expiry) now s).2 _
  rw [hok]
  exact hafter

end Vault

end LayeredStore
