import LayeredStore.Proofs.Frames

/-! # What operations depend on

A state has parts, and an action works on some of them: what it ends in and what it leaves in
these parts follows from these parts alone, and all other parts stay as they are
(`Action.WorksOn`).  So an action does the same wherever it is carried out, before or after
any work on other parts.

An operation of a table or a stack works on the parts that its maps work on, whatever fails;
upkeep of a stack also works on its policy.
-/
namespace LayeredStore

/-- The action works on its own parts of the state only. -/
structure Action.WorksOn {σ ε α π β : Type} (x : Action σ ε α) (part : π → σ → β) (own : π → Prop) :
    Prop where
  /-- From states that have these parts in common it does the same. -/
  alone : ∀ {s t}, (∀ p, own p → part p s = part p t) →
    (x s).1 = (x t).1 ∧ ∀ p, own p → part p (x s).2 = part p (x t).2
  /-- The other parts stay. -/
  others : ∀ {p} (s), ¬ own p → part p (x s).2 = part p s

namespace Action

variable {σ ε ε' α β π γ : Type} {part : π → σ → γ} {own : π → Prop}

/-- The outcome of an action, which is no failure of its own. -/
def outcome (x : Action σ ε α) : Action σ ε' (Except ε α) := fun s => (.ok (x s).1, (x s).2)

namespace WorksOn

theorem pure (a : α) : (Pure.pure a : Action σ ε α).WorksOn part own :=
  ⟨fun h => ⟨rfl, h⟩, fun _ _ => rfl⟩

theorem ofExcept (x : Except ε α) : (Action.ofExcept x : Action σ ε α).WorksOn part own :=
  ⟨fun h => ⟨rfl, h⟩, fun _ _ => rfl⟩

theorem bind {x : Action σ ε α} {f : α → Action σ ε β} (hx : x.WorksOn part own)
    (hf : ∀ a, (f a).WorksOn part own) : (x >>= f).WorksOn part own where
  alone {s t} h := by
    have hfirst := hx.alone h
    rw [Action.bind_apply, Action.bind_apply]
    generalize x s = xs at hfirst ⊢
    generalize x t = xt at hfirst ⊢
    obtain ⟨r, u⟩ := xs
    obtain ⟨r', u'⟩ := xt
    obtain ⟨rfl, hparts⟩ : r = r' ∧ ∀ p, own p → part p u = part p u' := hfirst
    cases r with
    | error e => exact ⟨rfl, hparts⟩
    | ok a => exact (hf a).alone hparts
  others {p} s hp := by
    have hfirst := hx.others s hp
    rw [Action.bind_apply]
    generalize x s = xs at hfirst ⊢
    obtain ⟨_ | a, u⟩ := xs
    · exact hfirst
    · exact ((hf a).others u hp).trans hfirst

theorem mapError {x : Action σ ε α} (hx : x.WorksOn part own) (f : ε → ε') :
    (x.mapError f).WorksOn part own where
  alone {s t} h := by
    have hfirst := hx.alone h
    unfold Action.mapError
    generalize x s = xs at hfirst ⊢
    generalize x t = xt at hfirst ⊢
    obtain ⟨r, u⟩ := xs
    obtain ⟨r', u'⟩ := xt
    obtain ⟨rfl, hparts⟩ : r = r' ∧ ∀ p, own p → part p u = part p u' := hfirst
    cases r <;> exact ⟨rfl, hparts⟩
  others {p} s hp := by
    have hfirst := hx.others s hp
    unfold Action.mapError
    generalize x s = xs at hfirst ⊢
    obtain ⟨_ | a, u⟩ := xs <;> exact hfirst

theorem outcome {x : Action σ ε α} (hx : x.WorksOn part own) :
    (x.outcome : Action σ ε' (Except ε α)).WorksOn part own where
  alone h := ⟨congrArg Except.ok (hx.alone h).1, (hx.alone h).2⟩
  others s hp := hx.others s hp

/-- What works on some parts works on more. -/
theorem mono {x : Action σ ε α} {own' : π → Prop} (hx : x.WorksOn part own)
    (h : ∀ p, own p → own' p) : x.WorksOn part own' where
  alone {s t} hst := by
    have hown := hx.alone fun p hp => hst p (h p hp)
    refine ⟨hown.1, fun p hp => ?_⟩
    by_cases hin : own p
    · exact hown.2 p hin
    · rw [hx.others s hin, hx.others t hin]
      exact hst p hp
  others s hp := hx.others s fun hin => hp (h _ hin)

end WorksOn

end Action

/-! ### Work on members -/

section

variable {σ ι α : Type} {act : ι → Action σ StoreError α}

/-- All attempts as one action. -/
def attempts (act : ι → Action σ StoreError α) (members : List ι) :
    Action σ StoreError (List (Except StoreError α)) :=
  fun s => (.ok (attemptEach act members s).1, (attemptEach act members s).2)

theorem attempts_cons (m : ι) (rest : List ι) :
    attempts act (m :: rest) =
      (act m).outcome >>= fun outcome => attempts act rest >>= fun outcomes =>
        pure (outcome :: outcomes) :=
  rfl

/-- What a fan-out makes of the outcomes. -/
def reportOf (operation : String) (label : ι → String) (members : List ι)
    (outcomes : List (Except StoreError α)) : Except StoreError (List α) :=
  match failuresFrom label 0 members outcomes with
  | [] => .ok (resultsOf outcomes)
  | failures => .error (.partialFailure operation members.length failures)

/-- A fan-out is all the attempts, and then the report. -/
theorem fanOut_eq (operation : String) (label : ι → String) (members : List ι) :
    fanOut operation label act members =
      attempts act members >>= fun outcomes =>
        Action.ofExcept (reportOf operation label members outcomes) := by
  funext s
  simp only [fanOut, Action.bind_apply, attempts, Action.ofExcept, reportOf]
  generalize failuresFrom label 0 members (attemptEach act members s).1 = failures
  cases failures <;> rfl

variable {π γ : Type} {part : π → σ → γ} {own : π → Prop} {members : List ι}

theorem attempts_worksOn (h : ∀ m ∈ members, (act m).WorksOn part own) :
    (attempts act members).WorksOn part own := by
  induction members with
  | nil => exact .pure []
  | cons m rest ih =>
    rw [attempts_cons]
    refine .bind (h m List.mem_cons_self).outcome fun _ => ?_
    exact .bind (ih fun n hn => h n (List.mem_cons_of_mem m hn)) fun _ => .pure _

theorem fanOut_worksOn (h : ∀ m ∈ members, (act m).WorksOn part own) (operation : String)
    (label : ι → String) : (fanOut operation label act members).WorksOn part own := by
  rw [fanOut_eq]
  exact .bind (attempts_worksOn h) fun _ => .ofExcept _

theorem Member.upkeepAll_worksOn {members : List (Member σ)} {verb : Upkeep} {now : Int64}
    (h : ∀ m ∈ members, (m.upkeep verb now).WorksOn part own) :
    (Member.upkeepAll members verb now).WorksOn part own :=
  .bind (fanOut_worksOn h _ _) fun _ => .pure _

end

/-! ### Tables and layers -/

/-- Every request to the backend works on the given parts. -/
def Backend.WorksOn {σ π γ : Type} (b : Backend σ) (part : π → σ → γ) (own : π → Prop) : Prop :=
  ∀ r now, (b.perform r now).WorksOn part own

section

variable {σ π γ : Type} {part : π → σ → γ} {own : π → Prop}

/-- The operations of a layer that every layer takes part in work on the given parts. -/
structure Layer.WorksOn {V : Type} (l : Layer σ V) (part : π → σ → γ) (own : π → Prop) : Prop where
  store : ∀ now id value expiry, (l.store now id value expiry).WorksOn part own
  discard : ∀ now id, (l.discard now id).WorksOn part own
  upkeep : ∀ verb now, (l.upkeep verb now).WorksOn part own

theorem Layer.WorksOn.mono {V : Type} {l : Layer σ V} {own' : π → Prop} (h : l.WorksOn part own)
    (hown : ∀ p, own p → own' p) : l.WorksOn part own' where
  store now id value expiry := (h.store now id value expiry).mono hown
  discard now id := (h.discard now id).mono hown
  upkeep verb now := (h.upkeep verb now).mono hown

theorem Backend.WorksOn.layer {b : Backend σ} (h : b.WorksOn part own) :
    (Layer.ofBackend b).WorksOn part own where
  store now id value expiry := .mapError (.bind (h (.put id value expiry) now) fun _ => .pure _) _
  discard now id := .mapError (.bind (h (.remove id) now) fun _ => .pure _) _
  upkeep verb now := .mapError (h (.upkeep verb) now) _

namespace Table

variable {t : Table σ}

theorem replaceFields_worksOn {columns : List (String × Backend σ)}
    (h : ∀ c ∈ columns, c.2.WorksOn part own) (now : Int64) (record : Record) (expiry : Int64) :
    (replaceFields now record expiry columns).WorksOn part own := by
  induction columns with
  | nil => exact .pure ()
  | cons c rest ih =>
    obtain ⟨hc, hrest⟩ := List.forall_mem_cons.1 h
    rw [replaceFields]
    split
    · exact .bind (.mapError (.bind (hc _ now) fun _ => .ofExcept _) _) fun _ => ih hrest
    · exact .bind (.mapError (.bind (hc _ now) fun _ => .ofExcept _) _) fun _ => ih hrest

variable (h : ∀ b ∈ t.maps, b.WorksOn part own) (now : Int64)
include h

theorem put_worksOn (record : Record) (expiry : Int64) :
    (t.put now record expiry).WorksOn part own := by
  have hcolumns : ∀ c ∈ t.columns.toList, c.2.WorksOn part own := fun c hc =>
    h c.2 (List.mem_cons_of_mem _ (List.mem_map_of_mem hc))
  have hmark : (t.mark now record.id expiry).WorksOn part own :=
    .bind (.mapError (h t.index List.mem_cons_self _ now) _) fun _ => .pure _
  exact .bind (.ofExcept _) fun _ => .bind (.ofExcept _) fun _ => .bind hmark fun _ =>
    replaceFields_worksOn hcolumns now record expiry

theorem remove_worksOn (id : String) : (t.remove now id).WorksOn part own :=
  .bind (fanOut_worksOn (fun b hb => .mapError (h b hb _ now) _) _ _) fun _ => .pure _

theorem upkeep_worksOn (verb : Upkeep) : (t.upkeep now verb).WorksOn part own := by
  refine Member.upkeepAll_worksOn fun m hm => ?_
  obtain ⟨b, hb, rfl⟩ := List.mem_map.1 hm
  exact .mapError (h b hb (.upkeep verb) now) _

omit now in
theorem layer_worksOn : t.layer.WorksOn part own where
  store now id record expiry := put_worksOn h now { record with id } expiry
  discard now id := remove_worksOn h now id
  upkeep verb now := upkeep_worksOn h now verb

end Table

/-! ### Stacks -/

namespace Stack

variable {V : Type} {stack : Stack σ V}

/-- The verb that upkeep of a stack comes to, and the state after the draw if there is one. -/
def carried [PolicyKeeper σ] (stack : Stack σ V) (verb : Upkeep) (s : σ) : Upkeep × σ :=
  match verb with
  | .incremental =>
    let place := PolicyKeeper.policy stack.ticket
    let drawn := (place.read s).decide
    (if drawn.1 then .maintenance else .incremental, place.write drawn.2 s)
  | verb => (verb, s)

/-- Upkeep of a stack is upkeep of every layer with the verb it comes to. -/
theorem upkeep_eq [PolicyKeeper σ] (now : Int64) (verb : Upkeep) (s : σ) :
    stack.upkeep now verb s =
      stack.upkeepLayers now (stack.carried verb s).1 (stack.carried verb s).2 := by
  cases verb with
  | incremental => exact upkeep_incremental now (stack.drawEscalation_apply s)
  | _ => rfl

theorem upkeepLayers_worksOn (h : ∀ l ∈ stack.layers, l.WorksOn part own) (verb : Upkeep)
    (now : Int64) : (stack.upkeepLayers now verb).WorksOn part own := by
  refine Member.upkeepAll_worksOn fun m hm => ?_
  obtain ⟨l, hl, rfl⟩ := List.mem_map.1 hm
  exact (h l hl).upkeep verb now

/-- Upkeep of a stack works on what its layers and its draw work on. -/
theorem upkeep_worksOn [PolicyKeeper σ] (h : ∀ l ∈ stack.layers, l.WorksOn part own)
    (hdraw : stack.drawEscalation.WorksOn part own) (verb : Upkeep) (now : Int64) :
    (stack.upkeep now verb).WorksOn part own := by
  have hlayers := fun verb => upkeepLayers_worksOn h verb now
  cases verb with
  | incremental =>
    have hrun : (stack.incremental now).WorksOn part own := by
      refine .bind hdraw fun escalate => ?_
      cases escalate with
      | true => exact .bind (hlayers .maintenance) fun _ => .pure _
      | false => exact .bind (hlayers .incremental) fun _ => .pure _
    exact .bind hrun fun _ => .pure _
  | setup | teardown | maintenance | clear => exact hlayers _

end Stack

end

end LayeredStore
