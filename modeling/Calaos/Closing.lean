import Calaos.Motors
/-!
# What a controller leaves behind when its command channel closes

`run` returns at once when `rx.recv()` gives nothing, and what is in `wait_task` is dropped with it. A
shutter is powered exactly while it has a task there (`Guarded`), so the motors that go on running are those
whose stop was dropped. This holds whatever the first values of the contexts are.
-/
namespace Calaos.Wago

open Eff Runs

/-- The invariant, for the tasks as `tasks` sees them: a shutter is dark exactly while no task is to stop
it, and every task is about a shutter. -/
structure Guarded (m : OutputContextMap) (tasks : String → Option Task) (s : St) : Prop where
  kinds : kindOf s.outputMap = kindOf m
  dark : ∀ id io, IsShutter m id io → (Dark s.world.coils io ↔ tasks id = none)
  keys : ∀ id task, s.waitTask.lookup id = some task → ∃ io, IsShutter m id io

theorem Powers.dark_iff {io : WagoIOUpDown} {motion : Motion} {c c' : Coils} (h : Powers io motion c c') :
    Dark c' io ↔ motion = .still := by
  unfold Dark
  rw [h.up, h.down]
  cases motion <;> simp

section
variable {m : OutputContextMap} {tasks tasks' : String → Option Task} {s s' : St} {id : String}

/-- Powering the shutter `id` and giving it a task, or neither. -/
theorem Guarded.shutter {io : WagoIOUpDown} {motion : Motion} (h : Guarded m tasks s) (hd : DistinctCoils m)
    (hs : IsShutter m id io) (hp : Powers io motion s.world.coils s'.world.coils)
    (hkinds : kindOf s'.outputMap = kindOf s.outputMap) (ht : motion = .still ↔ tasks' id = none)
    (hto : ∀ x, x ≠ id → tasks' x = tasks x)
    (hkeys : ∀ x task, s'.waitTask.lookup x = some task → x = id ∨ s.waitTask.lookup x = some task) :
    Guarded m tasks' s' where
  kinds := hkinds.trans h.kinds
  dark x io' hx := by
    by_cases hne : x = id
    · subst hne
      rw [IsShutter, show kindOf m x = _ from hs] at hx
      cases hx
      exact hp.dark_iff.trans ht
    · obtain ⟨hup, hdown⟩ := hp.elsewhere hd hs hx hne
      unfold Dark
      rw [hup, hdown, hto x hne]
      exact h.dark x io' hx
  keys x task hx := by
    rcases hkeys x task hx with rfl | hx
    · exact ⟨io, hs⟩
    · exact h.keys x task hx

theorem Guarded.digital {wio : WagoIO} {b : Bool} (h : Guarded m tasks s) (hd : DistinctCoils m)
    (hk : kindOf m id = some (.woDigital wio)) (hc : Sets wio.var b s.world.coils s'.world.coils)
    (hkinds : kindOf s'.outputMap = kindOf s.outputMap) (hw : s'.waitTask = s.waitTask) : Guarded m tasks s' where
  kinds := hkinds.trans h.kinds
  dark x io hx := by
    obtain ⟨hup, hdown⟩ := sets_elsewhere hc hd hk hx
    unfold Dark
    rw [hup, hdown]
    exact h.dark x io hx
  keys := by rw [hw]; exact h.keys

theorem Guarded.idle (h : Guarded m tasks s) (hc : s'.world.coils = s.world.coils)
    (hkinds : kindOf s'.outputMap = kindOf s.outputMap) (hw : s'.waitTask = s.waitTask) : Guarded m tasks s' where
  kinds := hkinds.trans h.kinds
  dark := by rw [hc]; exact h.dark
  keys := by rw [hw]; exact h.keys

theorem Guarded.command {o : Outcome} (h : Guarded m s.tasks s) (hd : DistinctCoils m)
    (ho : o.For (kindOf s.outputMap id)) (he : CmdEffect s id o s') : Guarded m s'.tasks s' := by
  have hkinds := he.kindOf
  rw [h.kinds] at ho
  cases o with
  | ignore =>
    cases he
    exact h.idle rfl rfl rfl
  | digital io b =>
    obtain ⟨w', hc, _, rfl⟩ := he
    exact h.digital hd ho hc hkinds rfl
  | halt io =>
    obtain ⟨w', hc, _, rfl⟩ := he
    refine h.shutter hd ho hc.powers hkinds ?_ (fun x hx => Finmap.lookup_erase_ne hx) ?_
    · rw [St.tasks, Finmap.lookup_erase]
      exact iff_of_true rfl rfl
    · exact fun x task hx => .inr (HMap.lookup_of_erase hx)
  | start io mv =>
    obtain ⟨hs, command, rfl⟩ := ho
    obtain ⟨w', c, since, deadline, hst, hon, _, _, _, rfl⟩ := he
    refine h.shutter hd hs (hst.powers_on (hd.own hs) hon) hkinds ?_
      (fun x hx => Finmap.lookup_insert_of_ne _ hx) ?_
    · rw [St.tasks, Finmap.lookup_insert]
      cases command <;> simp [Motion.ofCommand]
    · exact fun x task hx => HMap.lookup_insert_cases hx

theorem Guarded.expire {now : Nat} {visited : List String} (h : Guarded m (pending now visited s.waitTask) s)
    (hd : DistinctCoils m) (he : ExpireEffect now s id s') :
    Guarded m (pending now (id :: visited) s'.waitTask) s' := by
  have hkinds := he.kindOf
  have hkeys : ∀ task, s.waitTask.lookup id = some task → ∃ io, kindOf s.outputMap id = some (.woShutter io) := by
    rw [h.kinds]
    exact h.keys id
  rcases he.known hkeys with ⟨rfl, hlater⟩ | ⟨task, io, w', hl, hle, hkind, hc, rfl⟩
  · rwa [pending_cons hlater]
  · rw [h.kinds] at hkind
    refine h.shutter hd hkind hc.powers hkinds ?_ (fun x hx => pending_cons_ne now visited _ hx)
      fun x t hx => .inr hx
    simp [pending, hl, hle]

theorem Guarded.turn {l : Label} (h : Guarded m s.tasks s) (hd : DistinctCoils m) (hl : enabled s l)
    (he : Effect s l s') : Guarded m s'.tasks s' := by
  cases l with
  | recv d =>
    cases d with
    | none =>
      cases he
      exact h.idle rfl rfl rfl
    | some d => exact h.command hd (outcome_for _ d) he
  | expiry order =>
    refine expiry_invariant (P := Guarded m) hl.2.2 he (fun w hi => h.idle hi.coils rfl rfl)
      (fun now visited t id t' ht _ he => ht.expire hd he) ?_
    intro t p ht
    refine ⟨ht.kinds, ht.dark, ?_⟩
    intro x task hx
    rw [HMap.lookup_retain, Option.filter_eq_some_iff] at hx
    exact ht.keys x task hx.1
  | keepAlive =>
    obtain ⟨w, hi, rfl⟩ := he
    exact h.idle hi.coils rfl rfl

theorem Readied.guarded (h : Readied m (fun _ => True) s) : Guarded m s.tasks s where
  kinds := h.kinds
  dark id io hs := by
    rw [St.tasks, h.waitTask, Finmap.lookup_empty]
    exact iff_of_true (h.dark id io trivial hs) rfl
  keys id task ht := by
    rw [h.waitTask, Finmap.lookup_empty] at ht
    cases ht

theorem guarded_run {env : Env} {w : World} {s₀ : St} {ls : List Label} (hd : DistinctCoils m)
    (h₀ : Started env w m s₀) (hr : run (step env) s₀ ls = some s) : Guarded m s.tasks s :=
  run_invariant (step env) (I := fun t => Guarded m t.tasks t)
    (fun _ _ _ hi h => hi.turn hd (step_spec h).1 (step_spec h).2) h₀.ready.guarded hr

/-- **A controller that ends leaves running the motors that had a stop pending**: when it returns, a shutter
is dark exactly if it had no task, and all of them are exactly if `wait_task` was empty. -/
theorem closing_dark {env : Env} {w : World} {s₀ : St} {ls : List Label} (hd : DistinctCoils m)
    (h₀ : Started env w m s₀) (hr : run (step env) s₀ ls = some s) (hc : step env s (.recv none) = some s') :
    (∀ id io, IsShutter m id io → (Dark s'.world.coils io ↔ s.waitTask.lookup id = none)) ∧
    ((∀ id io, IsShutter m id io → Dark s'.world.coils io) ↔ s.waitTask = ∅) := by
  have h := guarded_run hd h₀ hr
  obtain ⟨_, he⟩ := step_spec hc
  cases he
  have hdark := h.dark
  refine ⟨hdark, ?_⟩
  constructor
  · intro hall
    refine Finmap.ext_lookup ?_
    intro id
    rw [Finmap.lookup_empty]
    cases hl : s.waitTask.lookup id with
    | none => rfl
    | some task =>
      obtain ⟨io, hs⟩ := h.keys id task hl
      rw [← hl]
      exact (hdark id io hs).1 (hall id io hs)
  · intro hempty id io hs
    rw [hdark id io hs, St.tasks, hempty, Finmap.lookup_empty]

end

/-- The blinds are sent up and the channel is closed: `run` returns `Ok`, and the motor runs on. -/
theorem closing_blinds :
    DistinctCoils oneShutter ∧ Started (plcEnv 1000000 30) idleWorld oneShutter (blindsStart (plcEnv 1000000 30)) ∧
    ∃ s, run (step (plcEnv 1000000 30)) (blindsStart (plcEnv 1000000 30)) [setShutter .up, .recv none] = some s ∧
      s.closed = true ∧ lit s.world.coils blinds.varUp = true :=
  ⟨by decide, blinds_started 1000000, _, rfl, rfl, rfl⟩

/-- Where they have gone up to the end before that, they have no task and are dark. -/
theorem closing_dark_blinds : ∃ s s' : St,
    run (step (plcEnv 10000000000 30)) (blindsStart (plcEnv 10000000000 30)) [setShutter .up, .expiry ["blinds"]] =
      some s ∧
    s.log = [.command "blinds" false, .started "blinds" .up 190000000000,
      .expired "blinds" (.shutter .up) 220000000000] ∧
    step (plcEnv 10000000000 30) s (.recv none) = some s' ∧
    ∀ id io, IsShutter oneShutter id io → Dark s'.world.coils io := by
  have hends : ((run (step (plcEnv 10000000000 30)) (blindsStart (plcEnv 10000000000 30))
      [setShutter .up, .expiry ["blinds"]]).bind fun s => (step (plcEnv 10000000000 30) s (.recv none)).map fun _ =>
        (s.log, decide (s.waitTask = ∅))) = some ([.command "blinds" false, .started "blinds" .up 190000000000,
          .expired "blinds" (.shutter .up) 220000000000], true) := by decide +kernel
  obtain ⟨s, hrun, hends⟩ := Option.bind_eq_some_iff.1 hends
  obtain ⟨s', hclose, hends⟩ := Option.map_eq_some_iff.1 hends
  obtain ⟨hlog, hnone⟩ := Prod.mk.inj hends
  exact ⟨s, s', hrun, hlog, hclose,
    (closing_dark (m := oneShutter) (by decide) (blinds_started _) hrun hclose).2.2 (of_decide_eq_true hnone)⟩

end Calaos.Wago
