import Calaos.Interleavings
import Calaos.ServerSessions
/-!
# The websocket server (core/src/websocket_server.rs)

| here | there |
| --- | --- |
| `Pc`, `St`, `step` | `run`: its `select!`, and the wait for `tls_acceptor.accept(stream)` in one of its branches |
| `St.sessions`      | the connections in `sessions`, with those that have ended |
| `receiving`        | `handle_connection` with its receiver, which lags once more values wait than there are slots |

The sessions are polled by the `select!` and by nothing else. So a run of the server is an interleaving of runs of its
sessions in which none of them goes on between the arrival of a client and the end of its TLS handshake, and every such
interleaving is a run (`interleaved_iff`). A client that takes its time with the handshake holds up all the others; if
it takes so long that more values are broadcast than there are slots, they are told nothing more (`holds_up`). Without
TLS there is no handshake, and the sessions of the whole server are those of such a run (`Server.listener_of_run`).
-/
namespace Calaos

namespace WebsocketServer

open Runs

/-! ## The server -/

/-- Where `run` waits, unless it has returned. -/
inductive Pc where
  | select
  | handshake
  | returned
deriving DecidableEq

structure St where
  pc : Pc
  sessions : List Websocket.St

/-- A client is accepted or `accept` fails, a handshake ends, a session goes on, or a value is broadcast. -/
inductive Label where
  | accept (ok : Bool)
  | handshake (ok : Bool)
  | session (i : Nat) (l : Websocket.Label)
  | broadcast (ioData : IOData)

section
variable (verify : String → String → Bool) (parse : String → Option Serde.Json) (ring : Nat) (tls : Bool)

/-- A step of a session. -/
def receiving (c : Websocket.St) (l : Websocket.Label) : Option Websocket.St :=
  match l with
  | .broadcast _ => none
  | .feedback ok => if ok = decide (c.rxFeedbackEvt.length ≤ ring) then Websocket.step verify parse c l else none
  | _ => Websocket.step verify parse c l

/-- What a session hears. -/
def hear (c : Websocket.St) (ioData : IOData) : Websocket.St := Server.hearing ioData c

/-- One step of `run`. -/
def step (s : St) : Label → Option St
  | .accept ok =>
    match s.pc with
    | .select =>
      if ok then
        if tls then some { s with pc := .handshake }
        else some { s with sessions := s.sessions ++ [Websocket.init] }
      else some { s with pc := .returned }
    | _ => none
  | .handshake ok =>
    match s.pc with
    | .handshake => some ⟨.select, if ok then s.sessions ++ [Websocket.init] else s.sessions⟩
    | _ => none
  | .session i l =>
    match s.pc with
    | .select =>
      s.sessions[i]?.bind fun c =>
        (receiving verify parse ring c l).map fun c => { s with sessions := s.sessions.set i c }
    | _ => none
  | .broadcast ioData =>
    match s.pc with
    | .returned => none
    | _ => some { s with sessions := s.sessions.map fun c => hear c ioData }

end

def init : St := ⟨.select, []⟩

/-! ## The sessions apart -/

/-- `run` without its sessions: these go on in the `select!` only. -/
def control (tls : Bool) : Pc → Label → Option Pc
  | .select, .accept ok => some (if ok then if tls then .handshake else .select else .returned)
  | .select, .session _ _ => some .select
  | .select, .broadcast _ => some .select
  | .handshake, .handshake _ => some .select
  | .handshake, .broadcast _ => some .handshake
  | _, _ => none

/-- What a step is for the sessions. -/
def concerns (tls : Bool) : Label → Option (Interleaving.Label Websocket.Label IOData)
  | .accept ok => if ok && !tls then some .join else none
  | .handshake ok => if ok then some .join else none
  | .session i l => some (.own i l)
  | .broadcast ioData => some (.all ioData)

/-- And a run. -/
def shared (tls : Bool) (ls : List Label) : List (Interleaving.Label Websocket.Label IOData) :=
  ls.filterMap (concerns tls)

section
variable {verify : String → String → Bool} {parse : String → Option Serde.Json} {ring : Nat} {tls : Bool}
  {s s' : St} {l : Label} {ls : List Label}

/-- A step is one of `run` and one of its sessions. -/
theorem step_iff : step verify parse ring tls s l = some s' ↔ control tls s.pc l = some s'.pc ∧
    run (Interleaving.many Websocket.init (receiving verify parse ring) hear) s.sessions (concerns tls l).toList =
      some s'.sessions := by
  obtain ⟨pc, sessions⟩ := s
  obtain ⟨pc', sessions'⟩ := s'
  cases l with
  | accept ok =>
    cases pc <;> cases ok <;> cases tls <;> simp [step, control, concerns, run, Interleaving.many, eq_comm]
  | handshake ok => cases pc <;> cases ok <;> simp [step, control, concerns, run, Interleaving.many, eq_comm]
  | session i l =>
    cases pc <;> simp [step, control, concerns, run, Interleaving.many, Option.bind_eq_some_iff, ← exists_and_left,
      and_left_comm]
  | broadcast ioData => cases pc <;> simp [step, control, concerns, run, Interleaving.many, eq_comm]

theorem run_iff : run (step verify parse ring tls) s ls = some s' ↔ run (control tls) s.pc ls = some s'.pc ∧
    run (Interleaving.many Websocket.init (receiving verify parse ring) hear) s.sessions (shared tls ls) =
      some s'.sessions := by
  induction ls generalizing s with
  | nil =>
    obtain ⟨pc, sessions⟩ := s
    obtain ⟨pc', sessions'⟩ := s'
    simp [run, shared]
  | cons l ls ih =>
    have hshared : shared tls (l :: ls) = (concerns tls l).toList ++ shared tls ls := by
      unfold shared
      cases h : concerns tls l <;> simp [h]
    rw [hshared, run_append, run_cons, run_cons, Option.bind_eq_some_iff]
    constructor
    · rintro ⟨t, hstep, hrun⟩
      obtain ⟨hpc, hsessions⟩ := step_iff.1 hstep
      obtain ⟨hpc', hsessions'⟩ := ih.1 hrun
      exact ⟨⟨t.pc, hpc, hpc'⟩, t.sessions, hsessions, hsessions'⟩
    · rintro ⟨⟨pc, hpc, hpc'⟩, sessions, hsessions, hsessions'⟩
      exact ⟨⟨pc, sessions⟩, step_iff.2 ⟨hpc, hsessions⟩, ih.2 ⟨hpc', hsessions'⟩⟩

/-- **The runs of the server are the interleavings of runs of its sessions** in which none of them goes on during a
handshake. A session that has not come yet is where it will begin. -/
theorem interleaved_iff : run (step verify parse ring tls) s ls = some s' ↔
    run (control tls) s.pc ls = some s'.pc ∧
    run Interleaving.grow s.sessions.length (shared tls ls) = some s'.sessions.length ∧
    ∀ i, run (Interleaving.one (receiving verify parse ring) hear) (s.sessions.getD i Websocket.init)
      (Interleaving.share i s.sessions.length (shared tls ls)) = some (s'.sessions.getD i Websocket.init) := by
  rw [run_iff, Interleaving.run_many_iff]

/-! ## The handshake -/

/-- What is left of a session that is not told anything more. -/
def Lost (ring : Nat) (c c' : Websocket.St) : Prop :=
  Websocket.events c'.log = Websocket.events c.log ∧ ring < c'.rxFeedbackEvt.length

/-- A session stays lost, whatever it does. -/
theorem Lost.step {c d d' : Websocket.St} (h : Lost ring c d) {e : Websocket.Label ⊕ IOData}
    (hs : Interleaving.one (receiving verify parse ring) hear d e = some d') : Lost ring c d' := by
  obtain ⟨he, hlag⟩ := h
  cases e with
  | inr ioData =>
    cases hs
    refine ⟨he, ?_⟩
    rw [hear, show (Server.hearing ioData d).rxFeedbackEvt = d.rxFeedbackEvt ++ [ioData] from rfl, List.length_append]
    omega
  | inl l =>
    have hstep : Websocket.step verify parse d l = some d' ∧ l ≠ .feedback true := by
      simp only [Interleaving.one, receiving] at hs
      cases l with
      | broadcast ioData => cases hs
      | feedback ok =>
        obtain ⟨hok, hs⟩ := Option.ite_none_right_eq_some.1 hs
        refine ⟨hs, ?_⟩
        rintro ⟨⟩
        have := of_decide_eq_true hok.symm
        omega
      | next | sent | commanded | answer => exact ⟨hs, by simp⟩
    obtain ⟨hlen, hevents⟩ := Websocket.step_behind hstep.1 hstep.2
    exact ⟨hevents.trans he, by omega⟩

/-- Somebody takes his time. -/
structure HeldUp (verify : String → String → Bool) (parse : String → Option Serde.Json) (ring : Nat) (s s' : St)
    (ls : List Label) : Prop where
  /-- Nobody else is accepted, and no session goes on: all that happens is that they have more to read. -/
  waits : ∃ ioDatas, ls = ioDatas.map .broadcast ∧ s'.pc = .handshake ∧
    s'.sessions = s.sessions.map fun c => { c with rxFeedbackEvt := c.rxFeedbackEvt ++ ioDatas }
  /-- If that is too much, none of them is told anything more, whatever happens then. -/
  lost : ring < ls.length → ∀ (more : List Label) (t : St), run (step verify parse ring true) s' more = some t →
    ∀ (i : Nat) (c : Websocket.St), s.sessions[i]? = some c → ∃ d, t.sessions[i]? = some d ∧
      Websocket.events d.log = Websocket.events c.log

/-- During a handshake there are only broadcasts. -/
theorem waits_of_handshake (hp : s.pc = .handshake) (hwait : ∀ ok, Label.handshake ok ∉ ls)
    (h : run (step verify parse ring true) s ls = some s') : ∃ ioDatas, ls = ioDatas.map .broadcast ∧
      s'.pc = .handshake ∧
      s'.sessions = s.sessions.map fun c => { c with rxFeedbackEvt := c.rxFeedbackEvt ++ ioDatas } := by
  induction ls generalizing s with
  | nil =>
    cases h
    exact ⟨[], rfl, hp, by simp⟩
  | cons l ls ih =>
    obtain ⟨t, hstep, h⟩ := (run_cons _).1 h
    cases l with
    | accept | session => simp [step, hp] at hstep
    | handshake ok => exact absurd List.mem_cons_self (hwait ok)
    | broadcast ioData =>
      rw [step, hp, Option.some.injEq] at hstep
      subst hstep
      obtain ⟨ioDatas, rfl, hpc, hsessions⟩ := ih (s := ⟨.handshake, s.sessions.map fun c => hear c ioData⟩) rfl
        (fun ok hm => hwait ok (List.mem_cons_of_mem _ hm)) h
      refine ⟨ioData :: ioDatas, rfl, hpc, ?_⟩
      rw [hsessions, List.map_map]
      refine List.map_congr_left fun c _ => ?_
      simp [hear, Server.hearing]

/-- There may be any number of them. -/
theorem run_broadcasts : ∀ (ioDatas : List IOData) {s : St}, s.pc = .handshake →
    run (step verify parse ring true) s (ioDatas.map .broadcast) =
      some ⟨.handshake, s.sessions.map fun c => { c with rxFeedbackEvt := c.rxFeedbackEvt ++ ioDatas }⟩
  | [], s, hp => by
    obtain ⟨pc, sessions⟩ := s
    cases hp
    simp [run]
  | ioData :: ioDatas, s, hp => by
    rw [List.map_cons, run_cons]
    refine ⟨⟨.handshake, s.sessions.map fun c => hear c ioData⟩, by simp [step, hp], ?_⟩
    rw [run_broadcasts ioDatas rfl]
    simp [hear, Server.hearing, Function.comp_def]

/-- **A client that takes its time with the handshake holds up all the others**, and may cost them their events. -/
theorem holds_up (hp : s.pc = .handshake) (hwait : ∀ ok, Label.handshake ok ∉ ls)
    (h : run (step verify parse ring true) s ls = some s') : HeldUp verify parse ring s s' ls := by
  obtain ⟨ioDatas, rfl, hpc, hsessions⟩ := waits_of_handshake hp hwait h
  refine ⟨⟨ioDatas, rfl, hpc, hsessions⟩, fun hlag more t hmore i c hget => ?_⟩
  obtain ⟨hgrow, hone⟩ := Interleaving.run_many_iff.1 (run_iff.1 hmore).2
  have hbehind : s'.sessions[i]? = some { c with rxFeedbackEvt := c.rxFeedbackEvt ++ ioDatas } := by
    rw [hsessions, List.getElem?_map, hget]
    rfl
  have hlost := hone i
  rw [List.getD_eq_getElem?_getD, hbehind, Option.getD_some] at hlost
  have hstart : Lost ring c { c with rxFeedbackEvt := c.rxFeedbackEvt ++ ioDatas } := by
    rw [List.length_map] at hlag
    refine ⟨rfl, ?_⟩
    rw [List.length_append]
    omega
  have hkeep := run_invariant (Interleaving.one (receiving verify parse ring) hear) (I := Lost ring c)
    (fun _ _ _ hd hs => hd.step hs) hstart hlost
  have hlt : i < t.sessions.length :=
    Nat.lt_of_lt_of_le (List.getElem?_eq_some_iff.1 hbehind).1 (Interleaving.run_grow_le hgrow)
  refine ⟨t.sessions[i], List.getElem?_eq_getElem hlt, ?_⟩
  rw [List.getD_eq_getElem?_getD, List.getElem?_eq_getElem hlt, Option.getD_some] at hkeep
  exact hkeep.1

end

open OutputControllers (channelCapacity)

def aliceStep : St → Label → Option St := step (verifyLogin none none) Snapshot.houseParse channelCapacity true

/-- Alice logs in, and somebody else comes and does not go on with the handshake. -/
def aliceWaits : List Label :=
  [.accept true, .handshake true, .session 0 (.next (some (.text Websocket.aliceText))), .session 0 (.sent true),
    .accept true]

/-- The bell is rung once more than there are slots. -/
def bells : List IOData := List.replicate (channelCapacity + 1) ⟨"bell", .bool true⟩

/-- Whatever happens then, Alice is not told. -/
theorem holds_up_alice : ∃ (s s' : St) (c : Websocket.St), run aliceStep init aliceWaits = some s ∧
    run aliceStep s (bells.map .broadcast) = some s' ∧
    HeldUp (verifyLogin none none) Snapshot.houseParse channelCapacity s s' (bells.map .broadcast) ∧
    s.sessions[0]? = some c ∧ c.authenticated = true ∧
    ∀ (more : List Label) (t : St), run aliceStep s' more = some t →
      ∃ d, t.sessions[0]? = some d ∧ Websocket.events d.log = [] := by
  have hrun : (run aliceStep init aliceWaits).map (fun s => (s.pc, s.sessions)) =
      some (.handshake, [⟨true, .select, [], 0, [.send (.text (.login ⟨true⟩))]⟩]) := by decide +kernel
  obtain ⟨s, hs, hnow⟩ := Option.map_eq_some_iff.1 hrun
  obtain ⟨hp, hsessions⟩ := Prod.mk.inj hnow
  have hget : s.sessions[0]? = some ⟨true, .select, [], 0, [.send (.text (.login ⟨true⟩))]⟩ := by
    rw [hsessions]
    rfl
  have hbells : run aliceStep s (bells.map .broadcast) =
      some ⟨.handshake, s.sessions.map fun c => { c with rxFeedbackEvt := c.rxFeedbackEvt ++ bells }⟩ :=
    run_broadcasts bells hp
  have hheld := holds_up hp (by simp) hbells
  have hmany : channelCapacity < (bells.map Label.broadcast).length := by
    rw [List.length_map, bells, List.length_replicate]
    exact Nat.lt_succ_self _
  exact ⟨s, _, _, hs, hbells, hheld, hget, rfl, fun more t hmore => hheld.lost hmany more t hmore 0 _ hget⟩

end WebsocketServer

/-! ## The sessions of the whole server -/

namespace Server

open Runs

section
variable {Ip : Type} [DecidableEq Ip] {site : Site Ip} {Addr : Type} {s s' : St} {l : Label Addr}
  {past : List (Label Addr)}

variable (site s) in
/-- The sessions are those of a websocket server without TLS. -/
def Listening : Prop :=
  ∃ ls, run (WebsocketServer.step site.verify site.parseJson site.ring false) WebsocketServer.init ls =
    some ⟨.select, s.sessions⟩

theorem Listening.snoc {l : WebsocketServer.Label} (h : Listening site s)
    (hs : WebsocketServer.step site.verify site.parseJson site.ring false ⟨.select, s.sessions⟩ l =
      some ⟨.select, s'.sessions⟩) : Listening site s' := by
  obtain ⟨ls, hls⟩ := h
  exact ⟨ls ++ [l], (run_snoc _).2 ⟨_, hls, hs⟩⟩

theorem Listening.step (h : Listening site s) (hs : Step site s l s') : Listening site s' := by
  have hbroadcast : ∀ (t : St) (origin : Origin) (ioData : IOData), Listening site t →
      Listening site (t.broadcast origin ioData) :=
    fun t origin ioData ht => ht.snoc (l := .broadcast ioData) rfl
  have hmoved : ∀ {i : Nat} {c c' : Websocket.St} (lw : Websocket.Label) {t : St}, s.sessions[i]? = some c →
      WebsocketServer.receiving site.verify site.parseJson site.ring c lw = some c' →
      t.sessions = s.sessions.set i c' → Listening site t := by
    intro i c c' lw t hi hc ht
    exact h.snoc (l := .session i lw) (by simp [WebsocketServer.step, hi, hc, ht])
  cases hs with
  | datagram datagram request hp hr lastChange outs hh =>
    exact broadcasts_keep (P := Listening site) (fun t => hbroadcast t .input) (MainServer.broadcasts outs) _ h
  | tell n ioData rest hout hn ho => exact hbroadcast _ _ _ h
  | accept => exact h.snoc (l := .accept true) rfl
  | alone i c c' lw hi hl hs =>
    refine hmoved lw hi ?_ rfl
    cases lw with
    | broadcast ioData => exact hl.elim
    | commanded ok => exact hl.elim
    | feedback ok =>
      have hok : ok = decide (c.rxFeedbackEvt.length ≤ site.ring) := hl
      simp only [WebsocketServer.receiving, ← hok, if_true]
      exact hs
    | next | sent | answer => exact hs
  | commanded i c c' cmd hi hp hroom hs => exact hmoved (.commanded true) hi hs rfl
  | garbled | submit | mqtt | recv | send | hear | lagged | dispatch | dispatched | start | unreachable | turn
  | returns | quit => exact h

/-- All that is said of the websocket server holds of the sessions of the whole server. -/
theorem listener_of_run (h : run (Server.step site) (init site) past = some s) : Listening site s :=
  run_invariant (Server.step site) (I := Listening site) (fun _ _ _ hi hs => hi.step (Step.of_step hs).2) ⟨[], rfl⟩ h

end

end Server

end Calaos
