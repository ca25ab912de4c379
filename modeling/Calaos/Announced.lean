import Calaos.WagoStart
/-!
# What a controller broadcasts

A controller broadcasts values of the outputs it handles and of no others, a boolean for a digital output and a
shutter state for a shutter (`Suits`), and it takes nothing back. `Announces` says so of any point of its run, also
after a turn that has failed half way: every piece of the code that broadcasts goes through `send_feedback`.

`Reports k` counts them: a command makes a controller broadcast one value at most, its start one for each output.
-/
namespace Calaos.Wago

open Eff

/-- A value that is broadcast for an output of this kind. -/
def Suits (value : IOValue) : Option OutputKind → Prop
  | some (.woDigital _) => ∃ b, value = .bool b
  | some (.woShutter _) => ∃ state, value = .shutter state
  | _ => False

/-- The values broadcast suit the kinds of the outputs, and begin with those in `said`. -/
structure Announces (kinds : String → Option OutputKind) (said : List IOData) (s : St) : Prop where
  outputs : kindOf s.outputMap = kinds
  grows : said <+: s.txFeedback
  suits : ∀ d ∈ s.txFeedback, Suits d.value (kinds d.id)
  tasks : ∀ id task, s.waitTask.lookup id = some task → ∃ target, task.targetState = .shutter target

section
-- Unfolding a request must not end in 32-bit arithmetic on an unknown variable.
attribute [local irreducible] u16TryFrom

variable {kinds : String → Option OutputKind} {said : List IOData} {env : Env} {id : String} {value : IOValue}

theorem Announces.kind {s : St} (h : Announces kinds said s) {ctx : OutputContext}
    (hl : s.outputMap.lookup id = some ctx) : kinds id = some ctx.output.kind := by
  rw [← h.outputs, kindOf, hl]
  rfl

/-- A piece of `run` that keeps all this, whether it fails or not. -/
abbrev Discreet {α : Type} (kinds : String → Option OutputKind) (said : List IOData) (m : Ctl α) : Prop :=
  Holds (Announces kinds said) (fun _ => True) m

theorem discreet_onWorld {α : Type} (act : Act α) : Discreet kinds said (onWorld act) :=
  .zoom (.trivial act) (fun _ _ => trivial) fun _ _ hs _ => ⟨hs.outputs, hs.grows, hs.suits, hs.tasks⟩

theorem discreet_emit (e : Event) : Discreet kinds said (emit e) :=
  .modify fun _ h => ⟨h.outputs, h.grows, h.suits, h.tasks⟩

/-- The one place where something is broadcast. -/
theorem discreet_sendFeedback (hs : Suits value (kinds id)) : Discreet kinds said (sendFeedback env ⟨id, value⟩) := by
  refine (discreet_onWorld (elapse env 0)).bind fun _ => .get_bind fun s _ => ?_
  split
  · refine .modify fun t ht => ⟨ht.outputs, ht.grows.trans (List.prefix_append _ _), ?_, ht.tasks⟩
    intro d hd
    rcases List.mem_append.1 hd with hd | hd
    · exact ht.suits d hd
    · rw [List.mem_singleton.1 hd]
      exact hs
  · exact .throw trivial

theorem discreet_updateState (hs : Suits value (kinds id)) : Discreet kinds said (updateState env id value) := by
  refine .bind (.modify fun s h => ?_) fun _ => discreet_sendFeedback hs
  exact ⟨(kindOf_setValue s.outputMap id value).trans h.outputs, h.grows, h.suits, h.tasks⟩

/-! ## The turns -/

theorem discreet_startOutput : Discreet kinds said (startOutput env id) := by
  refine .get_bind fun s hs => ?_
  cases hl : s.outputMap.lookup id with
  | none => exact .pure _
  | some context =>
    have hkind := hs.kind hl
    simp only
    cases hk : context.output.kind with
    | hueOutputLightRGB => exact .pure _
    | mySensorsOutputShutterSmart => exact .pure _
    | woDigital io =>
      rw [hk] at hkind
      refine (discreet_onWorld _).bind fun value => discreet_updateState ?_
      rw [hkind]
      exact ⟨value, rfl⟩
    | woShutter io =>
      rw [hk] at hkind
      refine (discreet_onWorld _).bind fun _ => discreet_sendFeedback ?_
      rw [hkind]
      exact ⟨.up, rfl⟩

theorem discreet_startup : ∀ order : List String, Discreet kinds said (startup env order)
  | [] => .pure _
  | _ :: order => discreet_startOutput.bind fun _ => discreet_startup order

theorem discreet_startShutter {io : WagoIOUpDown} (hk : kinds id = some (.woShutter io)) (mv : Movement) :
    Discreet kinds said (startShutter env id io mv) := by
  refine (discreet_onWorld _).bind fun _ => (discreet_onWorld _).bind fun _ => .get_bind fun s _ =>
    (discreet_emit _).bind fun _ => ?_
  refine Holds.bind_post (P := fun task => task.targetState = .shutter mv.targetState) (discreet_onWorld _)
    (fun s => (wp_onWorld _).2 ?_) fun task ht => ?_
  · exact wp_mono (fromNow_spec env io.time (.shutter mv.targetState) s.world) (fun _ _ h => h.2.1) fun _ _ _ => trivial
  refine .bind (.modify fun s hs => ⟨hs.outputs, hs.grows, hs.suits, ?_⟩) fun _ => discreet_updateState ?_
  · intro id' task' hl
    by_cases hid : id' = id
    · subst hid
      rw [Finmap.lookup_insert, Option.some.injEq] at hl
      exact ⟨mv.targetState, hl ▸ ht⟩
    · rw [Finmap.lookup_insert_of_ne _ hid] at hl
      exact hs.tasks id' task' hl
  · rw [hk]
    exact ⟨mv.nextState, rfl⟩

theorem discreet_haltShutter {io : WagoIOUpDown} (hk : kinds id = some (.woShutter io)) :
    Discreet kinds said (haltShutter env id io) := by
  refine (discreet_onWorld _).bind fun _ => .bind (.modify fun s hs => ?_) fun _ => discreet_updateState ?_
  · exact ⟨hs.outputs, hs.grows, hs.suits, fun id' task hl => hs.tasks id' task (HMap.lookup_of_erase hl)⟩
  · rw [hk]
    exact ⟨.up, rfl⟩

theorem discreet_onCommand (ioData : IODataAction) : Discreet kinds said (onCommand env ioData) := by
  refine .get_bind fun _ _ => (discreet_emit _).bind fun _ => .get_bind fun s hs => ?_
  cases hl : s.outputMap.lookup ioData.id with
  | none => exact .pure _
  | some ctx =>
    have hkind := hs.kind hl
    simp only
    split
    · exact .pure _
    · unfold applyValue
      cases hk : ctx.output.kind with
      | hueOutputLightRGB => exact .pure _
      | mySensorsOutputShutterSmart => exact .pure _
      | woDigital io =>
        rw [hk] at hkind
        simp only
        split
        · rename_i b _
          refine (discreet_onWorld _).bind fun _ => discreet_updateState ?_
          rw [hkind]
          exact ⟨b, rfl⟩
        · exact .pure _
      | woShutter io =>
        rw [hk] at hkind
        simp only
        split
        · exact discreet_startShutter hkind _
        · exact discreet_haltShutter hkind

theorem discreet_expireTask (now : Nat) : Discreet kinds said (expireTask env now id) := by
  refine .get_bind fun s hs => ?_
  cases ht : s.waitTask.lookup id with
  | none => exact .pure _
  | some task =>
    obtain ⟨target, htarget⟩ := hs.tasks id task ht
    simp only
    split
    · exact .pure _
    · refine .get_bind fun s hs => ?_
      cases hl : s.outputMap.lookup id with
      | none => exact discreet_emit _
      | some ctx =>
        have hkind := hs.kind hl
        simp only
        cases hk : ctx.output.kind with
        | hueOutputLightRGB => exact discreet_emit _
        | woDigital io => exact discreet_emit _
        | mySensorsOutputShutterSmart => exact discreet_emit _
        | woShutter io =>
          rw [hk] at hkind
          refine (discreet_onWorld _).bind fun _ => (discreet_updateState ?_).bind fun _ => discreet_emit _
          rw [hkind, htarget]
          exact ⟨target, rfl⟩

theorem discreet_expireTasks (now : Nat) : ∀ ids : List String, Discreet kinds said (expireTasks env now ids)
  | [] => .pure _
  | _ :: ids => (discreet_expireTask now).bind fun _ => discreet_expireTasks now ids

/-- **A turn broadcasts what suits the outputs**, however it ends. -/
theorem discreet_iteration (l : Label) : Discreet kinds said (iteration env l) := by
  cases l with
  | recv command =>
    cases command with
    | none => exact .modify fun _ hs => ⟨hs.outputs, hs.grows, hs.suits, hs.tasks⟩
    | some ioData => exact discreet_onCommand ioData
  | expiry order =>
    refine (discreet_onWorld _).bind fun now => (discreet_expireTasks now order).bind fun _ => .modify fun s hs => ?_
    refine ⟨hs.outputs, hs.grows, hs.suits, fun id task hl => hs.tasks id task ?_⟩
    exact (HMap.mem_lookup_retain.1 hl).1
  | keepAlive => exact discreet_onWorld _

/-! ## How many values -/

/-- The piece broadcasts at most `k` values, whether it fails or not. -/
def Reports {α : Type} (k : Nat) (m : Ctl α) : Prop :=
  ∀ (n : Nat) (s : St), s.txFeedback.length ≤ n →
    wp m (fun _ s' => s'.txFeedback.length ≤ n + k) (fun _ s' => s'.txFeedback.length ≤ n + k) s

section
variable {α β : Type} {j k : Nat} {m : Ctl α}

theorem Reports.mono (h : Reports j m) (hjk : j ≤ k) : Reports k m := by
  intro n s hs
  exact wp_mono (h n s hs) (fun _ s' h' => by omega) fun _ s' h' => by omega

theorem Reports.pure (a : α) : Reports 0 (Pure.pure a : Ctl α) := fun _ _ hs => hs

theorem Reports.throw (e : Fault) : Reports 0 (MonadExcept.throw e : Ctl α) := fun _ _ hs => hs

theorem Reports.bind {f : α → Ctl β} (hm : Reports j m) (hf : ∀ a, Reports k (f a)) : Reports (j + k) (m >>= f) := by
  intro n s hs
  rw [wp_bind]
  refine wp_mono (hm n s hs) (fun a s' h' => ?_) fun _ s' h' => by omega
  exact wp_mono (hf a (n + j) s' h') (fun _ t ht => by omega) fun _ t ht => by omega

/-- A piece that says nothing, before one that does. -/
theorem Reports.then {f : α → Ctl β} (hm : Reports 0 m) (hf : ∀ a, Reports k (f a)) : Reports k (m >>= f) :=
  (hm.bind hf).mono (by omega)

theorem Reports.get_bind {f : St → Ctl β} (hf : ∀ s, Reports k (f s)) : Reports k (get >>= f) :=
  fun n s hs => hf s n s hs

theorem Reports.modify {f : St → St} (hf : ∀ s, (f s).txFeedback = s.txFeedback) :
    Reports 0 (modify f : Ctl PUnit) := by
  intro n s hs
  rw [wp_modify, hf]
  exact hs

theorem reports_onWorld (act : Act α) : Reports 0 (onWorld act) := by
  intro n s hs
  rw [wp_onWorld]
  exact wp_mono (Holds.trivial act s.world trivial) (fun _ _ _ => hs) fun _ _ _ => hs

theorem reports_emit (e : Event) : Reports 0 (emit e) := .modify fun _ => rfl

theorem reports_sendFeedback (d : IOData) : Reports 1 (sendFeedback env d) := by
  refine (reports_onWorld _).then fun _ => .get_bind fun s => ?_
  split
  · intro n t ht
    rw [wp_modify]
    simpa using ht
  · exact (Reports.throw _).mono (by omega)

theorem reports_updateState (value : IOValue) : Reports 1 (updateState env id value) :=
  .then (.modify fun _ => rfl) fun _ => reports_sendFeedback _

theorem reports_startOutput : Reports 1 (startOutput env id) := by
  refine .get_bind fun s => ?_
  cases s.outputMap.lookup id with
  | none => exact (Reports.pure _).mono (by omega)
  | some context =>
    simp only
    split
    · exact (reports_onWorld _).then fun _ => reports_updateState _
    · exact (reports_onWorld _).then fun _ => reports_sendFeedback _
    · exact (Reports.pure _).mono (by omega)

variable (env) in
/-- One value for each output at the start. -/
theorem reports_startup : ∀ order : List String, Reports order.length (startup env order)
  | [] => .pure _
  | _ :: order => (reports_startOutput.bind fun _ => reports_startup order).mono (by simp; omega)

theorem reports_applyValue {ctx : OutputContext} (newValue : Option IOValue) :
    Reports 1 (applyValue env id ctx newValue) := by
  unfold applyValue
  split
  · split
    · exact (reports_onWorld _).then fun _ => reports_updateState _
    · exact (Reports.pure _).mono (by omega)
  · split
    · exact (reports_onWorld _).then fun _ => (reports_onWorld _).then fun _ => .get_bind fun _ =>
        (reports_emit _).then fun _ => (reports_onWorld _).then fun _ =>
          .then (.modify fun _ => rfl) fun _ => reports_updateState _
    · exact (reports_onWorld _).then fun _ => .then (.modify fun _ => rfl) fun _ => reports_updateState _
  · exact (Reports.pure _).mono (by omega)

variable (env) in
/-- **One value for a command.** -/
theorem reports_recv (ioDataOpt : Option IODataAction) : Reports 1 (iteration env (.recv ioDataOpt)) := by
  cases ioDataOpt with
  | none => exact (Reports.modify fun _ => rfl).mono (by omega)
  | some ioData =>
    refine .get_bind fun _ => (reports_emit _).then fun _ => .get_bind fun s => ?_
    cases s.outputMap.lookup ioData.id with
    | none => exact (Reports.pure _).mono (by omega)
    | some ctx =>
      simp only
      split
      · exact (Reports.pure _).mono (by omega)
      · exact reports_applyValue _

end

end

end Calaos.Wago
