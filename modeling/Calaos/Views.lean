import Calaos.EndToEnd
/-!
# Everyone sees the same house

The values broadcast are kept in several places: the rules engine has the last value of every output, from which it
makes the homes that it is asked for, and every client makes its own picture of the events that it is sent. They are
updated one after the other and may differ for a while. At rest they agree (`views_agree`). A client knows what was
broadcast since it came; if it was told nothing of an output, then nothing was broadcast of it since.

The values are compared as they are, before they become texts: the text of a moving shutter is that of one at rest.
-/
namespace Calaos

open Snapshot in
/-- The last value of an output in a longer log. -/
theorem lastValue_or (id : String) (log log' : List IOData) :
    lastValue id (log ++ log') = (lastValue id log').or (lastValue id log) := by
  induction log' using List.reverseRecOn with
  | nil => rw [List.append_nil]; rfl
  | append_singleton log' d ih =>
    rw [← List.append_assoc, lastValue_append, lastValue_append]
    split
    · rfl
    · exact ih

open Snapshot in
theorem lastValue_eq_none {id : String} {log : List IOData} : lastValue id log = none ↔ ∀ d ∈ log, d.id ≠ id := by
  rw [← Option.not_isSome_iff_eq_none, lastValue_isSome]
  push Not
  exact Iff.rfl

namespace Server

open Runs Queue
open Snapshot (lastValue Shows)

/-- What the client of a session was told last of an output. -/
def toldLast (id : String) (c : Websocket.St) : Option IOValue :=
  lastValue id ((Websocket.events c.log).map (·.data))

section
variable {Ip : Type} [DecidableEq Ip] (site : Site Ip) {Addr : Type}

/-- The last value that was broadcast of an output. -/
def latestOf (id : String) (s : St) : Option IOValue := lastValue id (s.feedback.log.map (·.2))

/-- One value for all. -/
structure ViewsAgree (past : List (Label Addr)) (s : St) (output : Output) : Prop where
  /-- A home that is asked for shows it, -/
  home : Shows (HomeData.new site.io s.engine.inputMap s.engine.outputMap) output (latestOf output.id s)
  /-- and a client that has read all its events was told it last. If it was told nothing, then nothing has been
  broadcast of the output since it came, and the value is the one of then. -/
  sessions : ∀ i c, s.sessions[i]? = some c → c.rxFeedbackEvt = [] → ∃ before after s₀ entries,
    past = before ++ .accept :: after ∧ run (Server.step site) (init site) before = some s₀ ∧ s₀.sessions.length = i ∧
    s.feedback.log = s₀.feedback.log ++ entries ∧
    (toldLast output.id c = none ↔ ∀ entry ∈ entries, entry.2.id ≠ output.id) ∧
    latestOf output.id s = (toldLast output.id c).or (latestOf output.id s₀)

end

section
variable {Ip : Type} [DecidableEq Ip] {site : Site Ip} {Addr : Type} {s : St} {past : List (Label Addr)}
  {output : Output}

/-- At rest the rules engine has heard everything. -/
theorem shows_of_quiet (h : run (Server.step site) (init site) past = some s) (hq : Quiet site s)
    (ho : output ∈ site.io.outputs) :
    Shows (HomeData.new site.io s.engine.inputMap s.engine.outputMap) output (latestOf output.id s) := by
  obtain ⟨le, hran⟩ := (run_parts h).engine
  rw [Snapshot.run_outputMap hran.reached, hran.feedbacks, taken_of_quiet hq.feedback]
  exact Snapshot.shows_outputsAfter ho _

/-- What the client of a session was told, whether the server is at rest or not. -/
theorem SessionRan.latest {i : Nat} {c : Websocket.St} {ls : List Websocket.Label} (h : SessionRan site past s i c ls)
    (hread : c.rxFeedbackEvt = []) (id : String) : ∃ before after s₀ entries, past = before ++ .accept :: after ∧
      run (Server.step site) (init site) before = some s₀ ∧ s₀.sessions.length = i ∧
      s.feedback.log = s₀.feedback.log ++ entries ∧
      (toldLast id c = none ↔ ∀ entry ∈ entries, entry.2.id ≠ id) ∧
      latestOf id s = (toldLast id c).or (latestOf id s₀) := by
  obtain ⟨sent, hsent, hevents⟩ := (Websocket.forwards_run h.reached).events
  rw [hread, List.append_nil] at hsent
  obtain ⟨before, after, s₀, hpast, hrun, hlength, entries, hlog, hentries⟩ := h.since
  have htold : toldLast id c = lastValue id (entries.map (·.2)) := by
    rw [toldLast, hevents, List.map_map, ← hentries, hsent]
    exact congrArg (lastValue id) (List.map_id' sent)
  refine ⟨before, after, s₀, entries, hpast, hrun, hlength, hlog, ?_, ?_⟩
  · rw [htold, lastValue_eq_none, List.forall_mem_map]
  · rw [latestOf, hlog, List.map_append, lastValue_or, htold]
    rfl

/-- **At rest everyone agrees** on the value of every output. -/
theorem views_agree (h : run (Server.step site) (init site) past = some s) (hq : Quiet site s)
    (ho : output ∈ site.io.outputs) : ViewsAgree site past s output where
  home := shows_of_quiet h hq ho
  sessions i c hget hread := by
    obtain ⟨ls, hran⟩ := (run_sessions h).ran i c hget
    exact hran.latest hread output.id

end

open OutputControllers (lamp)

/-- Somebody connects, the controllers start, and the client logs in and is told of the outputs. -/
def settles : List (Label Nat) :=
  [.accept, .start 0 ["blinds", "hall"], .tell 0, .tell 0, .hear, .hear, .start 1 ["porch"], .tell 1, .hear,
    .session 0 (.next (some (.text Websocket.aliceText))), .session 0 (.sent true),
    .session 0 (.feedback true), .session 0 (.sent true), .session 0 (.feedback true), .session 0 (.sent true),
    .session 0 (.feedback true), .session 0 (.sent true)]

/-- The house is at rest then, and everyone knows that the lamp is off. -/
theorem views_agree_porch : ∃ s : St, run (step (porchSite false)) (init (porchSite false)) settles = some s ∧
    Quiet (porchSite false) s ∧ (s.sessions[0]?).map (toldLast "porch") = some (some (.bool false)) ∧
    ViewsAgree (porchSite false) settles s (lamp "porch" "10.0.0.2" 1) := by
  have hrun : ((run (step (porchSite false)) (init (porchSite false)) settles).map fun s =>
      (atRest (porchSite false) s, (s.sessions[0]?).map (toldLast "porch"))) =
        some (true, some (some (.bool false))) := by decide +kernel
  obtain ⟨s, hs, hrest⟩ := Option.map_eq_some_iff.1 hrun
  obtain ⟨hrest, htold⟩ := Prod.mk.inj hrest
  have hq := (run_parts hs).quiet hrest
  exact ⟨s, hs, hq, htold, views_agree hs hq (by decide)⟩

end Server

end Calaos
