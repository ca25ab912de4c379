import Calaos.Announced
import Calaos.Decisions
import Calaos.Feedback
import Calaos.Routing
import Calaos.Server
/-!
# Every part of the server runs as it does alone

Whatever the other parts do in between, the engine, `handle_rx` and every controller go through a run of their own
machine, on exactly what they took from their channels. `Traced` says so, with what each of them has put into the
next channel. So whatever holds of every run of a part alone holds of it in the server.
-/
namespace Calaos.Server

open Runs Queue
open OutputControllers (channelCapacity)

section
variable {Ip : Type} [DecidableEq Ip] (site : Site Ip)

/-- The engine has run on the commands and the feedback it took, and all it sent is in its channel. -/
structure EngineRan (s : St) (ls : List Engine.Label) : Prop where
  reached : run (Engine.step site.io) (Engine.init site.io site.rulesConfig) ls = some s.engine
  commands : Engine.commands ls = s.inputEvt.taken.map (·.2)
  feedbacks : Engine.feedbacks ls = s.feedback.taken.map (·.2)
  sent : s.engine.sent = tagged .engine s.outputCmd.log

/-- `handle_rx` has run on the commands it took. -/
structure DispatchRan (s : St) (ls : List OutputControllers.Label) : Prop where
  reached : run (OutputControllers.step site.launched.reverseMap) OutputControllers.init ls = some s.dispatch
  commands : OutputControllers.commands ls = s.outputCmd.taken.map (·.2)
  fine : .sendFails ∉ ls

/-- A controller has run on the commands it took, until it returned. -/
inductive ControllerRan (n : Nat) (taken : List IODataAction) : Controller → Prop where
  | starting (ht : taken = []) : ControllerRan n taken ⟨.starting, Wago.init (site.world n) (site.outputs n), 0⟩
  | looping (order : List String) (s₀ st : Wago.St) (ls : List Wago.Label) (told : Nat)
    (ho : HMap.Enumerates order (site.outputs n))
    (hs : Wago.startup (site.env n) order (Wago.init (site.world n) (site.outputs n)) = .ok () s₀)
    (hr : run (Wago.step (site.env n)) s₀ ls = some st) (hc : Wago.commands ls = taken) (hopen : st.closed = false) :
    ControllerRan n taken ⟨.looping, st, told⟩
  | returned (st : Wago.St) (told : Nat) : ControllerRan n taken ⟨.returned, st, told⟩

/-- What a controller has broadcast suits its outputs, and is in the channel as far as it was told. -/
structure ControllerTold (s : St) (n : Nat) : Prop where
  announces : Wago.Announces (Wago.kindOf (site.outputs n)) [] (s.controllers n).st
  told : tagged (.controller n) s.feedback.log = (s.controllers n).st.txFeedback.take (s.controllers n).told
  le : (s.controllers n).told ≤ (s.controllers n).st.txFeedback.length

/-- All of them. -/
structure Traced (s : St) : Prop where
  engine : ∃ ls, EngineRan site s ls
  dispatch : ∃ ls, DispatchRan site s ls
  controller : ∀ n, ControllerRan site n (s.dispatch.taken n) (s.controllers n)
  told : ∀ n, ControllerTold site s n

end

section
variable {Ip : Type} [DecidableEq Ip] {site : Site Ip} {Addr : Type} {s s' : St} {l : Label Addr}

/-- What a single broadcast keeps, several keep. -/
theorem broadcasts_keep {P : St → Prop} (hb : ∀ s ioData, P s → P (s.broadcast .input ioData)) :
    ∀ (ds : List IOData) (s : St), P s → P (ds.foldl (fun s ioData => s.broadcast .input ioData) s)
  | [], _, h => h
  | d :: ds, s, h => broadcasts_keep hb ds _ (hb s d h)

/-- A session of a list in which one has taken a step. -/
theorem set_cases {cs : List Websocket.St} {i j : Nat} {c c' d : Websocket.St} (hi : cs[i]? = some c)
    (hj : (cs.set i c')[j]? = some d) : (j = i ∧ d = c') ∨ (j ≠ i ∧ cs[j]? = some d) := by
  by_cases hij : i = j
  · subst hij
    rw [List.getElem?_set_self (List.getElem?_eq_some_iff.1 hi).1, Option.some.injEq] at hj
    exact .inl ⟨rfl, hj.symm⟩
  · rw [List.getElem?_set_ne hij] at hj
    exact .inr ⟨Ne.symm hij, hj⟩

/-! ## The engine -/

/-- A step that is not the engine's. -/
theorem EngineRan.frame {ls : List Engine.Label} (h : EngineRan site s ls) (he : s'.engine = s.engine)
    (hi : s'.inputEvt.taken = s.inputEvt.taken) (hf : s'.feedback.taken = s.feedback.taken)
    (ho : tagged .engine s'.outputCmd.log = tagged .engine s.outputCmd.log) : EngineRan site s' ls :=
  ⟨by rw [he]; exact h.reached, by rw [hi]; exact h.commands, by rw [hf]; exact h.feedbacks,
    by rw [he, ho]; exact h.sent⟩

/-- A step that is. -/
theorem EngineRan.snoc {ls : List Engine.Label} {le : Engine.Label} (h : EngineRan site s ls)
    (he : Engine.step site.io s.engine le = some s'.engine)
    (hi : s'.inputEvt.taken.map (·.2) = s.inputEvt.taken.map (·.2) ++ Engine.commands [le])
    (hf : s'.feedback.taken.map (·.2) = s.feedback.taken.map (·.2) ++ Engine.feedbacks [le])
    (ho : tagged .engine s'.outputCmd.log = tagged .engine s.outputCmd.log ++ Engine.nextSent s.engine le) :
    EngineRan site s' (ls ++ [le]) where
  reached := (run_snoc _).2 ⟨_, h.reached, he⟩
  commands := by rw [Engine.commands_append, h.commands, hi]
  feedbacks := by
    rw [hf, ← h.feedbacks]
    exact List.filterMap_append
  sent := by rw [Engine.step_sent he, ho, h.sent]

theorem EngineRan.same {ls : List Engine.Label} (h : EngineRan site s ls) : ∃ more, EngineRan site s (ls ++ more) :=
  ⟨[], by rw [List.append_nil]; exact h⟩

/-- It goes on from where it was. -/
theorem EngineRan.step {ls : List Engine.Label} (h : EngineRan site s ls) (hs : Step site s l s') :
    ∃ more, EngineRan site s' (ls ++ more) := by
  have hbroadcast : ∀ (t : St) (origin : Origin) (ioData : IOData), EngineRan site t ls →
      EngineRan site (t.broadcast origin ioData) ls :=
    fun t origin ioData ht => ht.frame rfl rfl (by simp [St.broadcast]) rfl
  cases hs with
  | datagram datagram request hp hr lastChange outs hh =>
    exact EngineRan.same (broadcasts_keep (P := fun t => EngineRan site t ls) (fun t => hbroadcast t .input)
      (MainServer.broadcasts outs) _ (h.frame rfl rfl rfl rfl))
  | tell n ioData rest hout hn ho => exact EngineRan.same (hbroadcast _ _ _ (h.frame rfl rfl rfl rfl))
  | submit | commanded => exact EngineRan.same (h.frame rfl (by simp) rfl rfl)
  | mqtt topic payload ioAction ha hroom => exact EngineRan.same (h.frame rfl rfl rfl (by simp [tagged_snoc]))
  | recv command inputEvt engine ht he =>
    exact ⟨[.recv (some command.2)], h.snoc he (by simp [ht.taken, Engine.commands])
      (by simp [Engine.feedbacks]) (by simp [Engine.nextSent])⟩
  | send command actions rules engine hp hroom he =>
    exact ⟨[.sent], h.snoc he (by simp [Engine.commands]) (by simp [Engine.feedbacks])
      (by simp [tagged_snoc, Engine.nextSent, hp])⟩
  | hear ioData feedback engine ht hlag he =>
    exact ⟨[.feedback ioData.2], h.snoc he (by simp [Engine.commands])
      (by simp [ht.taken, Engine.feedbacks]) (by simp [Engine.nextSent])⟩
  | lagged engine hlag he =>
    exact ⟨[.feedbackFails], h.snoc he (by simp [Engine.commands]) (by simp [Engine.feedbacks])
      (by simp [Engine.nextSent])⟩
  | dispatch ioData outputCmd dispatch hout ht hd => exact EngineRan.same (h.frame rfl rfl rfl (congrArg _ ht.log))
  | garbled | accept | alone | dispatched | start | unreachable | turn | returns | quit =>
    exact EngineRan.same (h.frame rfl rfl rfl rfl)

/-! ## `handle_rx` -/

theorem DispatchRan.frame {ls : List OutputControllers.Label} (h : DispatchRan site s ls)
    (hd : s'.dispatch = s.dispatch) (ho : s'.outputCmd.taken = s.outputCmd.taken) : DispatchRan site s' ls :=
  ⟨by rw [hd]; exact h.reached, by rw [ho]; exact h.commands, h.fine⟩

theorem DispatchRan.snoc {ls : List OutputControllers.Label} {ld : OutputControllers.Label}
    (h : DispatchRan site s ls)
    (hd : OutputControllers.step site.launched.reverseMap s.dispatch ld = some s'.dispatch)
    (ho : s'.outputCmd.taken.map (·.2) = s.outputCmd.taken.map (·.2) ++ OutputControllers.commands [ld])
    (hl : ld ≠ .sendFails) : DispatchRan site s' (ls ++ [ld]) where
  reached := (run_snoc _).2 ⟨_, h.reached, hd⟩
  commands := by
    rw [ho, ← h.commands]
    exact List.filterMap_append
  fine := by
    rw [List.mem_append, not_or, List.mem_singleton]
    exact ⟨h.fine, hl.symm⟩

/-- A turn takes at most the command it is for. -/
theorem takeFor_cases {n : Nat} {lw : Wago.Label} {dispatch : OutputControllers.St}
    (h : takeFor site s n lw = some dispatch) :
    (dispatch = s.dispatch ∧ Wago.commands [lw] = []) ∨
      ∃ ioData, lw = .recv (some ioData) ∧ (s.dispatch.queues n).head? = some ioData ∧
        OutputControllers.step site.launched.reverseMap s.dispatch (.take n) = some dispatch := by
  cases lw with
  | expiry order =>
    cases h
    exact .inl ⟨rfl, rfl⟩
  | keepAlive =>
    cases h
    exact .inl ⟨rfl, rfl⟩
  | recv ioDataOpt =>
    cases ioDataOpt with
    | none =>
      simp only [takeFor] at h
      split at h
      · cases h
        exact .inl ⟨rfl, rfl⟩
      · cases h
    | some ioData =>
      simp only [takeFor] at h
      split at h
      · exact .inr ⟨ioData, rfl, ‹_›, h⟩
      · cases h

/-- Only its own controller gets it. -/
theorem taken_of_takeFor {n : Nat} {lw : Wago.Label} {dispatch : OutputControllers.St}
    (h : takeFor site s n lw = some dispatch) (m : Nat) :
    dispatch.taken m = s.dispatch.taken m ++ if m = n then Wago.commands [lw] else [] := by
  rcases takeFor_cases h with ⟨rfl, hc⟩ | ⟨ioData, rfl, hq, hd⟩
  · simp [hc]
  · cases OutputControllers.Step.of_step hd with
    | take _ ioData' rest hq' =>
      rw [hq', List.head?_cons, Option.some.injEq] at hq
      subst hq
      by_cases hmn : m = n
      · subst hmn
        simp [Wago.commands]
      · simp [hmn]

theorem DispatchRan.step {ls : List OutputControllers.Label} (h : DispatchRan site s ls) (hs : Step site s l s') :
    ∃ ls', DispatchRan site s' ls' := by
  cases hs with
  | datagram datagram request hp hr lastChange outs hh =>
    refine broadcasts_keep (P := fun t => ∃ ls, DispatchRan site t ls) ?_ (MainServer.broadcasts outs) _
      ⟨ls, h.frame rfl rfl⟩
    rintro t ioData ⟨ls, ht⟩
    exact ⟨ls, ht.frame rfl rfl⟩
  | mqtt | send => exact ⟨ls, h.frame rfl (by simp)⟩
  | dispatch ioData outputCmd dispatch hout ht hd =>
    exact ⟨ls ++ [.recv (some ioData.2)], h.snoc hd (by simp [ht.taken, OutputControllers.commands]) (by simp)⟩
  | dispatched dispatch hout hd => exact ⟨ls ++ [.sent], h.snoc hd (by simp [OutputControllers.commands]) (by simp)⟩
  | turn n lw dispatch hout hn hst ho hl ht =>
    rcases takeFor_cases ht with ⟨rfl, _⟩ | ⟨ioData, _, _, hd⟩
    · exact ⟨ls, h.frame rfl rfl⟩
    · exact ⟨ls ++ [.take n], h.snoc hd (by simp [St.setController, OutputControllers.commands]) (by simp)⟩
  | garbled | submit | accept | alone | commanded | recv | hear | lagged | start | unreachable | tell | returns
  | quit => exact ⟨ls, h.frame rfl rfl⟩

/-! ## The controllers -/

/-- After a piece of `run`, if it is still running. -/
theorem ControllerRan.after {n : Nat} {taken : List IODataAction} {c : Controller} {res : EStateM.Result Fault Wago.St Unit}
    (hok : ∀ st, res = .ok () st → st.closed = false → ControllerRan site n taken { c with status := .looping, st := st }) :
    ControllerRan site n taken (c.after res) := by
  unfold Controller.after
  split
  · rename_i st
    by_cases hc : st.closed = true
    · rw [if_pos hc]
      exact .returned st c.told
    · rw [if_neg hc]
      exact hok st rfl (by simpa using hc)
  · rename_i st
    exact .returned st c.told

theorem ControllerRan.start {n : Nat} {taken : List IODataAction} {c : Controller} {order : List String}
    (h : ControllerRan site n taken c) (hs : c.status = .starting) (ho : HMap.Enumerates order (site.outputs n)) :
    ControllerRan site n taken
      (c.after (Wago.startup (site.env n) order (Wago.init (site.world n) (site.outputs n)))) := by
  cases h with
  | starting ht => exact .after fun st hst hopen => .looping order st st [] 0 ho hst rfl (by rw [ht]; rfl) hopen
  | looping => cases hs
  | returned => cases hs

theorem ControllerRan.turn {n : Nat} {taken taken' : List IODataAction} {c : Controller} {lw : Wago.Label}
    (h : ControllerRan site n taken c) (hs : c.status = .looping) (hl : Wago.enabled c.st lw)
    (ht : taken' = taken ++ Wago.commands [lw]) :
    ControllerRan site n taken' (c.after (Wago.iteration (site.env n) lw c.st)) := by
  cases h with
  | looping order s₀ st ls told ho hs₀ hr hc =>
    refine .after fun st' hst hopen => .looping order s₀ st' (ls ++ [lw]) told ho hs₀ ?_ ?_ hopen
    · exact (run_snoc _).2 ⟨st, hr, Wago.step_eq_some.2 ⟨hl, hst⟩⟩
    · rw [ht, ← hc]
      exact List.filterMap_append
  | starting => cases hs
  | returned => cases hs

theorem ControllerRan.step {n : Nat} (h : ControllerRan site n (s.dispatch.taken n) (s.controllers n))
    (hs : Step site s l s') : ControllerRan site n (s'.dispatch.taken n) (s'.controllers n) := by
  cases hs with
  | datagram datagram request hp hr lastChange outs hh =>
    exact broadcasts_keep (P := fun t => ControllerRan site n (t.dispatch.taken n) (t.controllers n))
      (fun _ _ ht => ht) (MainServer.broadcasts outs) _ h
  | dispatch ioData outputCmd dispatch hout ht hd =>
    simp only
    rw [OutputControllers.step_taken hd nofun]
    exact h
  | dispatched dispatch hout hd =>
    simp only
    rw [OutputControllers.step_taken hd nofun]
    exact h
  | start m order hout hm hst ho =>
    simp only [St.setController]
    by_cases hnm : n = m
    · subst hnm
      rw [Function.update_self]
      exact h.start hst ho
    · rw [Function.update_of_ne hnm]
      exact h
  | unreachable m hout hm hst =>
    simp only [St.setController]
    by_cases hnm : n = m
    · subst hnm
      rw [Function.update_self]
      exact .returned _ _
    · rw [Function.update_of_ne hnm]
      exact h
  | turn m lw dispatch hout hm hst ho hl ht =>
    have htaken := taken_of_takeFor ht n
    simp only [St.setController]
    by_cases hnm : n = m
    · subst hnm
      rw [Function.update_self]
      exact h.turn hst hl (by simpa using htaken)
    · rw [Function.update_of_ne hnm, htaken, if_neg hnm, List.append_nil]
      exact h
  | tell m ioData rest hout hm ho =>
    simp only [St.setController, St.broadcast]
    by_cases hnm : n = m
    · subst hnm
      rw [Function.update_self]
      generalize s.controllers n = c at h ho ⊢
      cases h with
      | starting ht => exact absurd ho (by simp [Controller.outbox, Wago.init])
      | looping order s₀ st ls told ho' hs₀ hr hc hopen => exact .looping order s₀ st ls _ ho' hs₀ hr hc hopen
      | returned st told => exact .returned st _
    · rw [Function.update_of_ne hnm]
      exact h
  | garbled | submit | accept | alone | commanded | mqtt | recv | send | hear | lagged | returns | quit => exact h

/-! ## What they broadcast -/

/-- The state in which a piece of `run` leaves its controller. -/
theorem after_st (c : Controller) (res : EStateM.Result Fault Wago.St Unit) :
    (c.after res).st = (match res with | .ok _ st => st | .error _ st => st) ∧ (c.after res).told = c.told := by
  cases res <;> exact ⟨rfl, rfl⟩

/-- A piece that suits keeps all this, as long as everything said before was told. -/
theorem ControllerTold.after {n : Nat} {m : Wago.Ctl Unit} {st : Wago.St} (h : ControllerTold site s n)
    (hm : ∀ said, Wago.Discreet (Wago.kindOf (site.outputs n)) said m) (hst : st.txFeedback = (s.controllers n).st.txFeedback)
    (ha : Wago.Announces (Wago.kindOf (site.outputs n)) [] st) (ho : (s.controllers n).outbox = [])
    (hc : s'.controllers n = (s.controllers n).after (m st)) (hf : s'.feedback = s.feedback) :
    ControllerTold site s' n := by
  obtain ⟨hresult, htold⟩ := after_st (s.controllers n) (m st)
  have hsaid : Wago.Announces (Wago.kindOf (site.outputs n)) st.txFeedback st :=
    ⟨ha.outputs, List.prefix_rfl, ha.suits, ha.tasks⟩
  have hend : Wago.Announces (Wago.kindOf (site.outputs n)) st.txFeedback (s'.controllers n).st := by
    rw [hc, hresult]
    cases hres : m st with
    | ok a st' => exact (hm _).keeps.ok hsaid hres
    | error e st' => exact (hm _).keeps.error hsaid hres
  have hall : (s.controllers n).told = st.txFeedback.length := by
    have hle := h.le
    rw [Controller.outbox, List.drop_eq_nil_iff] at ho
    rw [hst]
    omega
  have hgrows := hend.grows.length_le
  rw [← hc] at htold
  refine ⟨⟨hend.outputs, List.nil_prefix, hend.suits, hend.tasks⟩, ?_, by rw [htold]; omega⟩
  rw [hf, h.told, htold, ← hst, hall, List.take_length]
  exact (List.prefix_iff_eq_take.1 hend.grows)

theorem ControllerTold.frame {n : Nat} (h : ControllerTold site s n) (hc : s'.controllers n = s.controllers n)
    (hf : tagged (.controller n) s'.feedback.log = tagged (.controller n) s.feedback.log) : ControllerTold site s' n :=
  ⟨by rw [hc]; exact h.announces, by rw [hc, hf]; exact h.told, by rw [hc]; exact h.le⟩

theorem ControllerTold.step {n : Nat} (h : ControllerTold site s n)
    (hran : ControllerRan site n (s.dispatch.taken n) (s.controllers n)) (hs : Step site s l s') :
    ControllerTold site s' n := by
  cases hs with
  | datagram datagram request hp hr lastChange outs hh =>
    refine broadcasts_keep (P := fun t => ControllerTold site t n) ?_ (MainServer.broadcasts outs) _ (h.frame rfl rfl)
    intro t ioData ht
    exact ht.frame rfl (by simp [St.broadcast, tagged_snoc])
  | hear ioData feedback engine ht hlag he => exact h.frame rfl (congrArg _ ht.log)
  | start m order hout hm hst ho =>
    by_cases hnm : n = m
    · subst hnm
      have hinit : (s.controllers n).st = Wago.init (site.world n) (site.outputs n) := by
        generalize s.controllers n = c at hran hst ⊢
        cases hran with
        | starting ht => rfl
        | looping => cases hst
        | returned => cases hst
      refine h.after (fun said => Wago.discreet_startup order) (by rw [hinit]) (by rw [← hinit]; exact h.announces) ?_
        (Function.update_self ..) rfl
      simp [Controller.outbox, hinit, Wago.init]
    · exact h.frame (Function.update_of_ne hnm ..) rfl
  | unreachable m hout hm hst =>
    by_cases hnm : n = m
    · subst hnm
      have hc : (s.setController n { s.controllers n with status := .returned }).controllers n =
          { s.controllers n with status := .returned } := Function.update_self ..
      exact ⟨by rw [hc]; exact h.announces, by rw [hc]; exact h.told, by rw [hc]; exact h.le⟩
    · exact h.frame (Function.update_of_ne hnm ..) rfl
  | turn m lw dispatch hout hm hst ho hl ht =>
    by_cases hnm : n = m
    · subst hnm
      exact h.after (fun said => Wago.discreet_iteration lw) rfl h.announces ho (Function.update_self ..) rfl
    · exact h.frame (Function.update_of_ne hnm ..) rfl
  | tell m ioData rest hout hm ho =>
    by_cases hnm : n = m
    · subst hnm
      have hc : ((s.setController n { s.controllers n with told := (s.controllers n).told + 1 }).broadcast
          (.controller n) ioData).controllers n =
            { s.controllers n with told := (s.controllers n).told + 1 } := Function.update_self ..
      have hget : (s.controllers n).st.txFeedback[(s.controllers n).told]? = some ioData := by
        rw [← List.head?_drop]
        exact congrArg List.head? ho
      obtain ⟨hlt, _⟩ := List.getElem?_eq_some_iff.1 hget
      refine ⟨by rw [hc]; exact h.announces, ?_, by rw [hc]; exact hlt⟩
      rw [hc]
      simp only [St.broadcast, St.setController, log_add, tagged_snoc, if_pos]
      rw [h.told, List.take_add_one, hget]
      rfl
    · refine h.frame (Function.update_of_ne hnm ..) ?_
      simp [St.broadcast, St.setController, tagged_snoc, Ne.symm hnm]
  | garbled | submit | accept | alone | commanded | mqtt | recv | send | lagged | dispatch | dispatched | returns
  | quit => exact h.frame rfl rfl

/-! ## All of them -/

theorem Traced.step (h : Traced site s) (hs : Server.step site s l = some s') : Traced site s' := by
  obtain ⟨_, hstep⟩ := Step.of_step hs
  obtain ⟨le, he⟩ := h.engine
  obtain ⟨ld, hd⟩ := h.dispatch
  obtain ⟨more, he'⟩ := he.step hstep
  exact ⟨⟨_, he'⟩, hd.step hstep, fun n => (h.controller n).step hstep,
    fun n => (h.told n).step (h.controller n) hstep⟩

theorem traced_init : Traced site (init site) where
  engine := ⟨[], rfl, rfl, rfl, rfl⟩
  dispatch := ⟨[], rfl, rfl, List.not_mem_nil⟩
  controller n := .starting rfl
  told n := ⟨⟨rfl, List.nil_prefix, by simp [init, Wago.init], by simp [init, Wago.init]⟩, rfl, Nat.zero_le _⟩

/-- **Every part runs as it does alone**, in every run of the server. -/
theorem run_parts {ls : List (Label Addr)} (h : run (Server.step site) (init site) ls = some s) : Traced site s :=
  run_invariant (Server.step site) (fun _ _ _ => Traced.step) traced_init h

end

/-! ## A house with a bell push

On it the hypotheses of the theorems about runs of the server are met. -/

open OutputControllers (lamp plc twoHosts)

/-- The shutter of the hall. -/
def hallBlinds : WagoIOUpDown := ⟨"10.0.0.1", "502", 2, 3, .fromSecs 10⟩

/-- A bell push, a lamp and a shutter on the first PLC, and a lamp on the second. -/
def porchHouse : IoConfig :=
  ⟨⟨[⟨"Porch", "porch", [⟨"Bell", "bell", "", .wiDigitalBP ⟨"10.0.0.1", "502", 7⟩, "", true, true⟩],
    [lamp "hall" "10.0.0.1" 1, ⟨"Blinds", "blinds", "", .woShutter hallBlinds, "", true, true⟩,
      lamp "porch" "10.0.0.2" 1], 0⟩]⟩⟩

/-- The bell push toggles the lamp on the second PLC. -/
def bellRule : Rules.Rule where
  name := "light"
  typer := ""
  conditions := [.standard ⟨"bell", .equal, .bool true⟩]
  actions := [⟨"", ⟨"porch", .toggle⟩⟩]

/-- The server of this house, with the output controllers or without. The texts of its clients are a login and a
request for the home. -/
def porchSite (noOutput : Bool) : Site String where
  io := porchHouse
  rulesConfig := ⟨[bellRule]⟩
  noOutput := noOutput
  nodeId := "calaos"
  parse := twoHosts
  configs := [plc "10.0.0.1", plc "10.0.0.2"]
  enumerates := by decide +kernel
  env _ := Wago.plcEnv 0 100
  world _ := Wago.idleWorld
  verify := verifyLogin none none
  parseJson := Snapshot.houseParse
  ring := channelCapacity
  le_ring := Nat.le_refl _

/-- The controllers start, and somebody rings. -/
def rings : List (Label Nat) :=
  [.start 0 ["blinds", "hall"], .tell 0, .tell 0, .hear, .hear, .start 1 ["porch"], .tell 1, .hear,
    .datagram (MainServer.textAt "WAGO INT 7 1" 0), .submit, .recv, .send]

/-- The lamp is toggled, and everyone hears of it. -/
def lights : List (Label Nat) :=
  [.hear, .dispatch, .dispatched, .turn 1 (.recv (some ⟨"porch", .toggle⟩)), .tell 1, .hear]

/-- Home Assistant opens the shutter of the hall. -/
def opens : List (Label Nat) :=
  [.mqtt "calaos/set/blinds" "OPEN".toUTF8, .dispatch, .dispatched,
    .turn 0 (.recv (some ⟨"blinds", .setValue (.shutter .up)⟩)), .tell 0, .hear]

end Calaos.Server
