import Calaos.History
import Calaos.LoginGate
import Calaos.RuleFiring
/-!
# How fresh the home is that a client gets

The rules engine and a websocket connection each have a receiver of their own for what the controllers
broadcast, and the command channel leads from the connection to the engine. All of them together are
`Sys`; the answer to `GetHome` is made from the map that `handle_output_feedback` fills, so it shows what
that had consumed when `handle_input` answered, and not what the connection has forwarded
(`home_not_older`, `home_older`).
-/
namespace Calaos.Snapshot

open Runs History

/-- The engine and one connection, with the channels between them. -/
structure Sys where
  engine : Engine.St
  conn : Websocket.St
  /-- What `handle_output_feedback` has consumed. -/
  consumed : List IOData
  rxOutput : List IOData
  rxInput : List IODataCmd
  /-- For each answer of `handle_input`, how much `handle_output_feedback` had consumed. -/
  consumedAt : List Nat

/-- One step of the controllers, of another task with a command, of a client that connects, of the two
halves of the engine, or of the connection. -/
inductive Label where
  | broadcast (ioData : IOData)
  | submit (ioAction : IODataAction)
  | connect
  | consume
  | recv
  | sent
  | next (msg : Option Websocket.Message)
  | forward
  | delivered (ok : Bool)
  | request
  | answered (k : Nat)

/-- Everything broadcast so far. -/
def Sys.broadcast (s : Sys) : List IOData := s.consumed ++ s.rxOutput

section
variable (io : IoConfig) (verify : String → String → Bool) (parse : String → Option Serde.Json)

/-- A step of the connection alone. -/
def Sys.connStep (s : Sys) (l : Websocket.Label) : Option Sys :=
  (Websocket.step verify parse s.conn l).map fun conn => { s with conn := conn }

/-- One step. No receiver lags, and no task has ended. -/
def step (s : Sys) : Label → Option Sys
  | .broadcast ioData =>
    { s with rxOutput := s.rxOutput ++ [ioData] }.connStep verify parse (.broadcast ioData)
  | .submit ioAction => some { s with rxInput := s.rxInput ++ [.action ioAction] }
  | .connect => some { s with conn := { Websocket.init with handlers := s.conn.handlers } }
  | .consume =>
    match s.rxOutput with
    | ioData :: rest =>
      (Engine.step io s.engine (.feedback ioData)).map fun engine =>
        { s with engine := engine, consumed := s.consumed ++ [ioData], rxOutput := rest }
    | [] => none
  | .recv =>
    match s.rxInput with
    | .action ioAction :: rest =>
      (Engine.step io s.engine (.recv (some (.action ioAction)))).map fun engine =>
        { s with engine := engine, rxInput := rest }
    | .getAllData handler :: rest =>
      (Engine.step io s.engine (.recv (some (.getAllData handler)))).map fun engine =>
        { s with engine := engine, rxInput := rest, consumedAt := s.consumedAt ++ [s.consumed.length] }
    | [] => none
  | .sent => (Engine.step io s.engine .sent).map fun engine => { s with engine := engine }
  | .next msg => s.connStep verify parse (.next msg)
  | .forward => s.connStep verify parse (.feedback true)
  | .delivered ok => s.connStep verify parse (.sent ok)
  | .request =>
    match s.conn.phase with
    | .command cmd => { s with rxInput := s.rxInput ++ [cmd] }.connStep verify parse (.commanded true)
    | _ => none
  | .answered k =>
    match s.conn.phase, s.engine.answers[k]? with
    | .answer handler, some (handler', data) =>
      if handler' = handler then s.connStep verify parse (.answer (some data)) else none
    | _, _ => none

end

/-- Everything as it starts. -/
def init (io : IoConfig) (rulesConfig : Rules.RulesConfig) : Sys :=
  ⟨Engine.init io rulesConfig, Websocket.init, [], [], [], []⟩

/-! ## What the map shows -/

/-- The map of the outputs after this feedback. -/
def outputsAfter (io : IoConfig) (log : List IOData) : OutputSharedContextMap :=
  log.foldl (fun map d => Engine.writeOutput map d.id d.value) (makeOutputContextMap io)

/-- The last value of the output in the feedback. -/
def lastValue (id : String) (log : List IOData) : Option IOValue :=
  (latest (fun d : IOData => decide (d.id = id)) log).map (·.value)

theorem outputsAfter_append (io : IoConfig) (log : List IOData) (d : IOData) :
    outputsAfter io (log ++ [d]) = Engine.writeOutput (outputsAfter io log) d.id d.value := by
  simp [outputsAfter]

theorem lastValue_append (id : String) (log : List IOData) (d : IOData) :
    lastValue id (log ++ [d]) = if d.id = id then some d.value else lastValue id log := by
  rw [lastValue, latest_append]
  by_cases h : d.id = id <;> simp [h, lastValue]

theorem lastValue_isSome {id : String} {log : List IOData} :
    (lastValue id log).isSome = true ↔ ∃ d ∈ log, d.id = id := by
  induction log using List.reverseRecOn with
  | nil => simp [lastValue, latest]
  | append_singleton log d ih =>
    rw [lastValue_append]
    by_cases h : d.id = id
    · simp [h]
    · rw [if_neg h, ih]
      simp [or_and_right, exists_or, h]

/-- Every output has its last value. -/
theorem lookup_outputsAfter (io : IoConfig) (log : List IOData) (id : String) :
    (outputsAfter io log).lookup id =
      ((makeOutputContextMap io).lookup id).map fun context => { context with value := lastValue id log } := by
  induction log using List.reverseRecOn with
  | nil =>
    rw [outputsAfter, List.foldl_nil]
    cases h : (makeOutputContextMap io).lookup id with
    | none => rfl
    | some context =>
      have hv := value_makeOutputContextMap h
      obtain ⟨output, value⟩ := context
      cases hv
      rfl
  | append_singleton log d ih =>
    rw [outputsAfter_append, Engine.writeOutput, HMap.lookup_modify_eq]
    by_cases h : id = d.id
    · subst h
      rw [if_pos rfl, ih, Option.map_map]
      simp [lastValue_append, Function.comp_def]
    · rw [if_neg h, ih, lastValue_append, if_neg (Ne.symm h)]

/-- The map of the engine is made by the feedback it has processed. -/
theorem run_outputMap {io : IoConfig} {rulesConfig : Rules.RulesConfig} {past : List Engine.Label} {e : Engine.St}
    (h : run (Engine.step io) (Engine.init io rulesConfig) past = some e) :
    e.outputMap = outputsAfter io (Engine.feedbacks past) := by
  refine run_traced (Engine.step io) (I := fun past e => e.outputMap = outputsAfter io (Engine.feedbacks past))
    ?_ rfl h
  intro past e l e' hi hs
  rw [(Engine.step_maps hs).2.1, hi]
  cases l with
  | feedback d =>
    rw [show Engine.feedbacks (past ++ [.feedback d]) = Engine.feedbacks past ++ [d] by simp [Engine.feedbacks],
      outputsAfter_append]
    rfl
  | recv | sent | sendFails | feedbackFails => simp [Engine.feedbacks, Engine.nextOutputs]

/-- The answer has the output, and always with this value. -/
def Shows (data : HomeData) (output : Output) (value : Option IOValue) : Prop :=
  (∃ room ∈ data.home, ∃ item ∈ room.items, item.ioData = .output output) ∧
    ∀ room ∈ data.home, ∀ item ∈ room.items, item.ioData = .output output →
      item = makeRoomIoData (.output output) value

instance (data : HomeData) (output : Output) (value : Option IOValue) : Decidable (Shows data output value) :=
  inferInstanceAs (Decidable (_ ∧ _))

/-- The answer is made from the map. -/
theorem shows_homeData {io : IoConfig} {inputMap : InputSharedContextMap} {outputMap : OutputSharedContextMap}
    {output : Output} {context : OutputSharedContext} (ho : output ∈ io.outputs)
    (hl : outputMap.lookup output.id = some context) :
    Shows (HomeData.new io inputMap outputMap) output context.value := by
  have hmade : makeRoomOutput outputMap output = some (makeRoomIoData (.output output) context.value) := by
    rw [makeRoomOutput, hl]
    rfl
  constructor
  · obtain ⟨room, hr, hm⟩ := List.mem_flatMap.1 ho
    exact ⟨_, List.mem_map_of_mem hr, _, List.mem_append_right _ (List.mem_filterMap.2 ⟨output, hm, hmade⟩),
      makeRoomIoData_ioData _ _⟩
  · intro roomData hrd item hi hout
    obtain ⟨room, hr, rfl⟩ := List.mem_map.1 hrd
    rcases List.mem_append.1 hi with hi | hi
    · obtain ⟨input, _, he⟩ := List.mem_filterMap.1 hi
      obtain ⟨_, _, rfl⟩ := Option.map_eq_some_iff.1 he
      rw [makeRoomIoData_ioData] at hout
      cases hout
    · obtain ⟨output', _, he⟩ := List.mem_filterMap.1 hi
      have hsame : output' = output := by
        obtain ⟨_, _, rfl⟩ := Option.map_eq_some_iff.1 he
        rw [makeRoomIoData_ioData] at hout
        cases hout
        rfl
      rw [hsame, hmade] at he
      exact (Option.some.inj he).symm

/-- The answer shows the last values. -/
theorem shows_outputsAfter {io : IoConfig} {inputMap : InputSharedContextMap} {output : Output}
    (ho : output ∈ io.outputs) (log : List IOData) :
    Shows (HomeData.new io inputMap (outputsAfter io log)) output (lastValue output.id log) := by
  have hmem := (complete_make io ⟨[]⟩).2 output ho
  obtain ⟨context, hl⟩ := Option.isSome_iff_exists.1 (Finmap.lookup_isSome.2 hmem)
  have hlog : (outputsAfter io log).lookup output.id =
      some { context with value := lastValue output.id log } := by
    rw [lookup_outputsAfter, hl]
    rfl
  exact shows_homeData ho hlog

/-- A value that was broadcast before is the last one, or is followed by it. -/
theorem lastValue_not_older {log : List IOData} {i : Nat} {id : String} {value : IOValue}
    (hi : log[i]? = some ⟨id, value⟩) :
    ∃ j value', i ≤ j ∧ log[j]? = some ⟨id, value'⟩ ∧ lastValue id log = some value' := by
  obtain ⟨j, d, hij, hj, hd, hlatest⟩ :=
    latest_of_getElem? (p := fun d : IOData => decide (d.id = id)) hi (by simp)
  obtain ⟨id', value'⟩ := d
  obtain rfl : id' = id := of_decide_eq_true hd
  exact ⟨j, value', hij, hj, by rw [lastValue, hlatest]; rfl⟩

/-! ## Runs -/

/-- The event of a broadcast, as the client gets it. -/
def event (ioData : IOData) : Websocket.Effect := .send (.text (.event (EventData.new .ioChanged ioData)))

/-- Another effect is no event. -/
theorem mem_of_mem_append {log : List Websocket.Effect} {e : Websocket.Effect} (he : ∀ d, event d ≠ e)
    {d : IOData} (h : event d ∈ log ++ [e]) : event d ∈ log := by
  rcases List.mem_append.1 h with h | h
  · exact h
  · exact absurd (List.mem_singleton.1 h) (he d)

/-- An event leaves the connection only for a broadcast that waits in its receiver. -/
theorem conn_events {verify : String → String → Bool} {parse : String → Option Serde.Json}
    {c c' : Websocket.St} {l : Websocket.Label} (hs : Websocket.step verify parse c l = some c') :
    (∀ d ∈ c'.rxFeedbackEvt, d ∈ c.rxFeedbackEvt ∨ l = .broadcast d) ∧
      ∀ d, event d ∈ c'.log → event d ∈ c.log ∨ d ∈ c.rxFeedbackEvt := by
  cases Websocket.Step.of_step hs with
  | broadcast ioData =>
    constructor
    · intro d hd
      rcases List.mem_append.1 hd with hd | hd
      · exact .inl hd
      · rw [List.mem_singleton.1 hd]
        exact .inr rfl
    · intro d hd
      exact .inl hd
  | served msg request hp hr =>
    obtain ⟨new, hlog, hnew⟩ := Websocket.handleRequest_log verify (Websocket.requestOf_ne_event hr) c
    rw [Websocket.handleRequest_rxFeedbackEvt, hlog]
    constructor
    · intro d hd
      exact .inl hd
    · intro d hd
      rcases List.mem_append.1 hd with hd | hd
      · exact .inl hd
      · have hno := hnew _ hd
        cases hno
  | feedback data rest hp ha hq =>
    rw [hq]
    constructor
    · intro d hd
      exact .inl (List.mem_cons_of_mem _ hd)
    · intro d hd
      rcases List.mem_append.1 hd with hd | hd
      · exact .inl hd
      · have hdata : event d = event data := List.mem_singleton.1 hd
        simp only [event, EventData.new, Websocket.Effect.send.injEq, Websocket.Reply.text.injEq,
          Response.event.injEq, EventData.mk.injEq] at hdata
        rw [hdata.2.2.2]
        exact .inr List.mem_cons_self
  | requested handler hp | answer handler data hp =>
    constructor
    · intro d hd
      exact .inl hd
    · intro d hd
      exact .inl (mem_of_mem_append (by simp [event]) hd)
  | commanded ioAction hp =>
    constructor
    · intro d hd
      exact .inl hd
    · intro d hd
      exact .inl (mem_of_mem_append (by simp [event]) (mem_of_mem_append (by simp [event]) hd))
  | sent | ended | failed => exact ⟨fun d hd => .inl hd, fun d hd => .inl hd⟩

/-- What every step keeps: the map is what the consumed feedback makes of it, every answer is made from
the map of its moment, and events come from broadcasts. -/
structure Consistent (io : IoConfig) (s : Sys) : Prop where
  map : s.engine.outputMap = outputsAfter io s.consumed
  count : s.consumedAt.length = s.engine.answers.length
  answers : ∀ (k handler n : Nat) (data : HomeData), s.engine.answers[k]? = some (handler, data) →
    s.consumedAt[k]? = some n → n ≤ s.consumed.length ∧
      ∃ inputMap, data = HomeData.new io inputMap (outputsAfter io (s.consumed.take n))
  waiting : ∀ d ∈ s.conn.rxFeedbackEvt, d ∈ s.broadcast
  events : ∀ d, event d ∈ s.conn.log → d ∈ s.broadcast

section
variable {io : IoConfig} {rulesConfig : Rules.RulesConfig} {verify : String → String → Bool}
  {parse : String → Option Serde.Json} {s s' : Sys} {e : Engine.St}

/-- The engine goes on without feedback or answers. -/
theorem Consistent.engine (hc : Consistent io s) (hm : e.outputMap = s.engine.outputMap)
    (ha : e.answers = s.engine.answers) (rxInput : List IODataCmd) :
    Consistent io { s with engine := e, rxInput := rxInput } where
  map := hm.trans hc.map
  count := by rw [ha]; exact hc.count
  answers := by rw [ha]; exact hc.answers
  waiting := hc.waiting
  events := hc.events

/-- So does a step of it that is neither. -/
theorem Consistent.engineStep {l : Engine.Label} (hc : Consistent io s) (he : Engine.step io s.engine l = some e)
    (hm : Engine.nextOutputs s.engine.outputMap l = s.engine.outputMap) (ha : Engine.nextAnswers io s.engine l = [])
    (rxInput : List IODataCmd) : Consistent io { s with engine := e, rxInput := rxInput } := by
  obtain ⟨_, hout, hans⟩ := Engine.step_maps he
  rw [hm] at hout
  rw [ha, List.append_nil] at hans
  exact hc.engine hout hans rxInput

theorem Consistent.connStep {l : Websocket.Label} (hc : Consistent io s)
    (hs : s.connStep verify parse l = some s') (hl : ∀ d, l = .broadcast d → d ∈ s.broadcast) :
    Consistent io s' := by
  obtain ⟨conn, hstep, rfl⟩ := Option.map_eq_some_iff.1 hs
  obtain ⟨hwait, hevent⟩ := conn_events hstep
  exact ⟨hc.map, hc.count, hc.answers, fun d hd => (hwait d hd).elim (hc.waiting d) (hl d),
    fun d hd => (hevent d hd).elim (hc.events d) (hc.waiting d)⟩

theorem Consistent.broadcast (hc : Consistent io s) (ioData : IOData) :
    Consistent io { s with rxOutput := s.rxOutput ++ [ioData] } := by
  have hmore : ∀ d ∈ s.broadcast, d ∈ s.consumed ++ (s.rxOutput ++ [ioData]) := by
    intro d hd
    rw [← List.append_assoc]
    exact List.mem_append_left _ hd
  exact ⟨hc.map, hc.count, hc.answers, fun d hd => hmore d (hc.waiting d hd),
    fun d hd => hmore d (hc.events d hd)⟩

theorem Consistent.consume {ioData : IOData} {rest : List IOData} (hc : Consistent io s)
    (hq : s.rxOutput = ioData :: rest) (he : Engine.step io s.engine (.feedback ioData) = some e) :
    Consistent io { s with engine := e, consumed := s.consumed ++ [ioData], rxOutput := rest } := by
  obtain ⟨_, hm, ha⟩ := Engine.step_maps he
  replace ha : e.answers = s.engine.answers := ha.trans (List.append_nil _)
  have hsame : s.broadcast = (s.consumed ++ [ioData]) ++ rest := by simp [Sys.broadcast, hq]
  refine ⟨?_, by rw [ha]; exact hc.count, ?_, ?_, ?_⟩
  · rw [hm, hc.map, outputsAfter_append]
    rfl
  · intro k handler n data hk hn
    rw [ha] at hk
    obtain ⟨hle, inputMap, hd⟩ := hc.answers k handler n data hk hn
    refine ⟨by simp; omega, inputMap, ?_⟩
    rw [List.take_append_of_le_length hle, hd]
  · intro d hd
    have hw := hc.waiting d hd
    rwa [hsame] at hw
  · intro d hd
    have he := hc.events d hd
    rwa [hsame] at he

theorem Consistent.answer {handler : Nat} (hc : Consistent io s)
    (he : Engine.step io s.engine (.recv (some (.getAllData handler))) = some e) (rxInput : List IODataCmd) :
    Consistent io
      { s with engine := e, rxInput := rxInput, consumedAt := s.consumedAt ++ [s.consumed.length] } := by
  obtain ⟨_, hm, ha⟩ := Engine.step_maps he
  replace ha : e.answers = s.engine.answers ++ [(handler, HomeData.new io s.engine.inputMap s.engine.outputMap)] := ha
  refine ⟨hm.trans hc.map, by simp [ha, hc.count], ?_, hc.waiting, hc.events⟩
  intro k h n data hk hn
  rw [ha] at hk
  rcases Nat.lt_or_ge k s.engine.answers.length with hlt | hge
  · rw [List.getElem?_append_left hlt] at hk
    rw [List.getElem?_append_left (by rw [hc.count]; exact hlt)] at hn
    exact hc.answers k h n data hk hn
  · rw [List.getElem?_append_right hge] at hk
    rw [List.getElem?_append_right (by rw [hc.count]; exact hge)] at hn
    simp only [List.getElem?_singleton, Option.ite_none_right_eq_some, Option.some.injEq, Prod.mk.injEq] at hk hn
    obtain ⟨_, _, rfl⟩ := hk
    obtain ⟨_, rfl⟩ := hn
    exact ⟨Nat.le_refl _, s.engine.inputMap, by rw [List.take_length, hc.map]⟩

/-- One step. -/
theorem Consistent.step {l : Label} (hc : Consistent io s) (hs : step io verify parse s l = some s') :
    Consistent io s' := by
  cases l with
  | broadcast ioData =>
    refine (hc.broadcast ioData).connStep hs ?_
    intro d hd
    cases hd
    simp [Sys.broadcast]
  | submit ioAction =>
    cases hs
    exact hc.engine rfl rfl _
  | connect =>
    cases hs
    exact ⟨hc.map, hc.count, hc.answers, fun d hd => (by cases hd), fun d hd => (by cases hd)⟩
  | consume =>
    simp only [Snapshot.step] at hs
    split at hs
    · obtain ⟨e, he, rfl⟩ := Option.map_eq_some_iff.1 hs
      exact hc.consume ‹_› he
    · cases hs
  | recv =>
    simp only [Snapshot.step] at hs
    split at hs
    · obtain ⟨e, he, rfl⟩ := Option.map_eq_some_iff.1 hs
      exact hc.engineStep he rfl rfl _
    · obtain ⟨e, he, rfl⟩ := Option.map_eq_some_iff.1 hs
      exact hc.answer he _
    · cases hs
  | sent =>
    obtain ⟨e, he, rfl⟩ := Option.map_eq_some_iff.1 hs
    exact hc.engineStep he rfl rfl _
  | next msg => exact hc.connStep hs nofun
  | forward => exact hc.connStep hs nofun
  | delivered ok => exact hc.connStep hs nofun
  | request =>
    simp only [Snapshot.step] at hs
    split at hs
    · exact (hc.engine rfl rfl _).connStep hs nofun
    · cases hs
  | answered k =>
    simp only [Snapshot.step] at hs
    split at hs
    · split at hs
      · exact hc.connStep hs nofun
      · cases hs
    · cases hs

theorem consistent_init : Consistent io (init io rulesConfig) where
  map := rfl
  count := rfl
  answers k handler n data hk := by simp [init, Engine.init] at hk
  waiting d hd := by simp [init, Websocket.init] at hd
  events d hd := by simp [init, Websocket.init] at hd

theorem run_consistent {ls : List Label}
    (h : run (step io verify parse) (init io rulesConfig) ls = some s) : Consistent io s :=
  run_invariant (Snapshot.step io verify parse) (fun _ _ _ hc hs => hc.step hs) consistent_init h

/-- **A home is as fresh as the feedback that the engine has consumed** when it answers: it shows the last
values in that. So it is not older than an event whose broadcast the engine had consumed by then. -/
theorem home_not_older {ls : List Label} {k : Nat}
    (hr : run (step io verify parse) (init io rulesConfig) ls = some s)
    (hs : step io verify parse s (.answered k) = some s') :
    ∃ n data, s.consumedAt[k]? = some n ∧ s'.conn.log = s.conn.log ++ [.send (.text (.getHome data))] ∧
      ∀ output ∈ io.outputs, Shows data output (lastValue output.id (s.broadcast.take n)) ∧
        ∀ value, event ⟨output.id, value⟩ ∈ s.conn.log →
          (∃ i : Nat, s.broadcast[i]? = some ⟨output.id, value⟩) ∧
          ∀ i : Nat, s.broadcast[i]? = some ⟨output.id, value⟩ → i < n →
            ∃ (j : Nat) (value' : IOValue), i ≤ j ∧ s.broadcast[j]? = some ⟨output.id, value'⟩ ∧ Shows data output (some value') := by
  have hc := run_consistent hr
  simp only [step] at hs
  split at hs
  · rename_i handler handler' data hphase hk
    split at hs
    · obtain ⟨conn, hstep, rfl⟩ := Option.map_eq_some_iff.1 hs
      have hlog : conn.log = s.conn.log ++ [.send (.text (.getHome data))] := by
        simp only [Websocket.step, hphase, Option.some.injEq] at hstep
        rw [← hstep, Websocket.St.send]
      obtain ⟨n, hn⟩ : ∃ n, s.consumedAt[k]? = some n := by
        have hlt := (List.getElem?_eq_some_iff.1 hk).1
        exact ⟨_, List.getElem?_eq_getElem (by rw [hc.count]; exact hlt)⟩
      obtain ⟨hle, inputMap, hdata⟩ := hc.answers k handler' n data hk hn
      have htake : s.broadcast.take n = s.consumed.take n := List.take_append_of_le_length hle
      refine ⟨n, data, hn, hlog, ?_⟩
      intro output ho
      have hshows : Shows data output (lastValue output.id (s.broadcast.take n)) := by
        rw [hdata, htake]
        exact shows_outputsAfter ho _
      refine ⟨hshows, fun value hv => ⟨List.mem_iff_getElem?.1 (hc.events _ hv), ?_⟩⟩
      intro i hi hin
      have hi' : (s.broadcast.take n)[i]? = some ⟨output.id, value⟩ := by rw [List.getElem?_take_of_lt hin, hi]
      obtain ⟨j, value', hij, hj, hlast⟩ := lastValue_not_older hi'
      rw [hlast] at hshows
      have hjn : j < n := (List.getElem?_eq_some_iff.1 hj).1.trans_le (List.length_take_le _ _)
      exact ⟨j, value', hij, by rw [← List.getElem?_take_of_lt hjn, hj], hshows⟩
    · cases hs
  · cases hs

end

/-! ## A lamp that goes on while a client asks for the home -/

def lamp : Output := ⟨"Lamp", "lamp", "", .woDigital ⟨"wago", "502", 1⟩, "", true, true⟩

def getHomeText : String := "\x7b\"msg\":\"get_home\"\x7d"

/-- `serde_json` on the two texts. -/
def houseParse (text : String) : Option Serde.Json :=
  if text = Websocket.aliceText then Websocket.aliceParse text
  else if text = getHomeText then some (.obj [("msg", .str "get_home")])
  else none

/-- A house with that lamp, and no login configured. -/
def houseStep : Sys → Label → Option Sys := step Engine.hall (verifyLogin none none) houseParse

/-- The client has logged in and seen that the lamp is off; then it goes on. -/
def switchedOn : List Label :=
  [.next (some (.text Websocket.aliceText)), .delivered true, .broadcast ⟨"lamp", .bool false⟩, .consume,
    .forward, .delivered true, .broadcast ⟨"lamp", .bool true⟩]

/-- The client is told, and asks for the home; the engine consumes the feedback first, or does not. -/
def toldAndAsks (consumes : Bool) : List Label :=
  [.forward, .delivered true, .next (some (.text getHomeText)), .request] ++
    (if consumes then [.consume] else []) ++ [.recv]

theorem home_not_older_lamp :
    ∃ s s' n data, run houseStep (init Engine.hall ⟨[]⟩) (switchedOn ++ toldAndAsks true) = some s ∧
      houseStep s (.answered 0) = some s' ∧ s.consumedAt[0]? = some n ∧
      s'.conn.log = s.conn.log ++ [.send (.text (.getHome data))] ∧
      Shows data lamp (lastValue "lamp" (s.broadcast.take n)) ∧
      ∀ i : Nat, s.broadcast[i]? = some ⟨"lamp", .bool true⟩ → i < n →
        ∃ (j : Nat) (value' : IOValue), i ≤ j ∧ s.broadcast[j]? = some ⟨"lamp", value'⟩ ∧ Shows data lamp (some value') := by
  obtain ⟨s, s', hr, hs, hseen⟩ :
      ∃ s s', run houseStep (init Engine.hall ⟨[]⟩) (switchedOn ++ toldAndAsks true) = some s ∧
        houseStep s (.answered 0) = some s' ∧ event ⟨"lamp", .bool true⟩ ∈ s.conn.log :=
    ⟨_, _, rfl, rfl, by decide⟩
  obtain ⟨n, data, hn, hlog, hshow⟩ := home_not_older hr hs
  obtain ⟨hlast, hnot⟩ := hshow lamp (by decide)
  exact ⟨s, s', n, data, hr, hs, hn, hlog, hlast, (hnot (.bool true) hseen).2⟩

/-- Without that the client, told that the lamp is on, gets a home with a lamp that is off. -/
theorem home_older :
    ∃ s s' data, run houseStep (init Engine.hall ⟨[]⟩) (switchedOn ++ toldAndAsks false) = some s ∧
      houseStep s (.answered 0) = some s' ∧
      s.broadcast = [⟨"lamp", .bool false⟩, ⟨"lamp", .bool true⟩] ∧ event ⟨"lamp", .bool true⟩ ∈ s.conn.log ∧
      s'.conn.log = s.conn.log ++ [.send (.text (.getHome data))] ∧
      Shows data lamp (some (.bool false)) ∧ ¬ Shows data lamp (some (.bool true)) := by
  refine ⟨_, _, _, rfl, rfl, rfl, ?_, rfl, ?_, ?_⟩ <;> decide

end Calaos.Snapshot
