import Calaos.Snapshot
/-!
# The home as an atomic read

`handle_input` takes its commands from one FIFO channel, `handle_output_feedback` writes the other map, and
the home is put together from both by lookups. What a client should get is simpler: the last value of every
input and output, read at once (`Store.home`). The engine's maps are such a store at every moment
(`Refines`), so every answer is one read of it (`home_current`).
-/
namespace Calaos.HomeStore

open History Runs Snapshot

/-! ## The store -/

/-- The last value of every input and of every output, if there is one. -/
structure Store where
  inputs : String → Option IOValue
  outputs : String → Option IOValue

/-- A value as a client sees it: its type and its text. -/
def shown : Option IOValue → String × String
  | some v => (makeIoValueType v, v.intoString)
  | none => ("string", "")

def Store.input (store : Store) (input : Input) : RoomIOData :=
  ⟨.input input, (shown (store.inputs input.id)).1, (shown (store.inputs input.id)).2⟩

def Store.output (store : Store) (output : Output) : RoomIOData :=
  ⟨.output output, (shown (store.outputs output.id)).1, (shown (store.outputs output.id)).2⟩

/-- The whole home, room by room, the inputs of a room before its outputs. -/
def Store.home (store : Store) (io : IoConfig) : HomeData where
  home := io.home.rooms.map fun room =>
    ⟨room.name, room.typer, toString room.hits.toNat, room.inputs.map store.input ++ room.outputs.map store.output⟩
  cameras := ()
  audio := ()

/-- What a step of the engine means for the store. -/
def Store.step (store : Store) : Engine.Label → Store
  | .recv (some (.action ⟨id, .setValue value⟩)) =>
    { store with inputs := Function.update store.inputs id (some value) }
  | .feedback d => { store with outputs := Function.update store.outputs d.id (some d.value) }
  | _ => store

/-- The value that a command sets. -/
def setValueOf : IODataCmd → Option IOData
  | .action ⟨id, .setValue value⟩ => some ⟨id, value⟩
  | _ => none

/-- The last value set under the id. -/
def lastSet (id : String) (commands : List IODataCmd) : Option IOValue :=
  lastValue id (commands.filterMap setValueOf)

/-- The store after these commands and this feedback. -/
def storeOf (commands : List IODataCmd) (fed : List IOData) : Store :=
  ⟨fun id => lastSet id commands, fun id => lastValue id fed⟩

theorem lastValue_update (log : List IOData) (d : IOData) :
    (fun id => lastValue id (log ++ [d])) = Function.update (fun id => lastValue id log) d.id (some d.value) := by
  funext id
  rw [lastValue_append, Function.update_apply]
  by_cases h : d.id = id
  · simp [h]
  · simp [h, Ne.symm h]

theorem storeOf_command (commands : List IODataCmd) (command : IODataCmd) (fed : List IOData) :
    storeOf (commands ++ [command]) fed = (storeOf commands fed).step (.recv (some command)) := by
  have hinputs : ∀ d, setValueOf command = some d → (fun id => lastSet id (commands ++ [command])) =
      Function.update (fun id => lastSet id commands) d.id (some d.value) := by
    intro d hd
    unfold lastSet
    simp only [List.filterMap_append, List.filterMap_cons, hd, List.filterMap_nil]
    exact lastValue_update _ d
  have hsame : setValueOf command = none →
      (fun id => lastSet id (commands ++ [command])) = fun id => lastSet id commands := by
    intro hd
    simp [lastSet, List.filterMap_append, hd]
  cases command with
  | getAllData handler => rw [storeOf, hsame rfl]; rfl
  | action ioAction =>
    obtain ⟨id, action⟩ := ioAction
    cases action with
    | setValue value => rw [storeOf, hinputs ⟨id, value⟩ rfl]; rfl
    | toggle | stop => rw [storeOf, hsame rfl]; rfl

theorem setValueOf_eq_some {command : IODataCmd} {d : IOData} (h : setValueOf command = some d) :
    command = .action ⟨d.id, .setValue d.value⟩ := by
  unfold setValueOf at h
  split at h <;> cases h
  rfl

/-- A value that was set is the last one, or is followed by it. -/
theorem lastSet_not_older {commands : List IODataCmd} {i : Nat} {id : String} {value : IOValue}
    (hi : commands[i]? = some (.action ⟨id, .setValue value⟩)) :
    ∃ j value', i ≤ j ∧ commands[j]? = some (.action ⟨id, .setValue value'⟩) ∧ lastSet id commands = some value' := by
  obtain ⟨j, command, hij, hj, hset, hlatest⟩ := latest_of_getElem?
    (p := fun command => (setValueOf command).any fun d => decide (d.id = id)) hi (by simp [setValueOf])
  obtain ⟨d, hd, hid⟩ := (Option.any_eq_true _ _).1 hset
  obtain rfl : d.id = id := of_decide_eq_true hid
  refine ⟨j, d.value, hij, ?_, ?_⟩
  · rw [hj, setValueOf_eq_some hd]
  · rw [lastSet, lastValue, latest_filterMap, hlatest, Option.bind_some, hd, Option.map_some]

theorem storeOf_feedback (commands : List IODataCmd) (fed : List IOData) (d : IOData) :
    storeOf commands (fed ++ [d]) = (storeOf commands fed).step (.feedback d) := by
  rw [storeOf, lastValue_update]
  rfl

/-! ## The maps of the engine -/

/-- The maps are the store, for all that is configured. -/
structure Refines (io : IoConfig) (store : Store) (e : Engine.St) : Prop where
  inputs : ∀ input ∈ io.inputs, (e.inputMap.lookup input.id).map (·.value) = some (store.inputs input.id)
  outputs : ∀ output ∈ io.outputs, (e.outputMap.lookup output.id).map (·.value) = some (store.outputs output.id)

section
variable {io : IoConfig} {rulesConfig : Rules.RulesConfig} {store : Store} {e e' : Engine.St}

theorem makeRoomIoData_shown (ioData : JsonIOData) (value : Option IOValue) :
    makeRoomIoData ioData value = ⟨ioData, (shown value).1, (shown value).2⟩ := by
  cases value <;> rfl

/-- **The answer is a read of the store**: no lookup fails, so nothing is dropped. -/
theorem Refines.home (h : Refines io store e) : HomeData.new io e.inputMap e.outputMap = store.home io := by
  have hroom : ∀ room ∈ io.home.rooms, makeRoomIos room e.inputMap e.outputMap =
      room.inputs.map store.input ++ room.outputs.map store.output := by
    intro room hr
    have hin : ∀ input ∈ room.inputs, makeRoomInput e.inputMap input = some (store.input input) := by
      intro input hi
      obtain ⟨context, hl, hv⟩ := Option.map_eq_some_iff.1 (h.inputs input (List.mem_flatMap.2 ⟨room, hr, hi⟩))
      rw [makeRoomInput, hl, Option.map_some, hv, makeRoomIoData_shown]
      rfl
    have hout : ∀ output ∈ room.outputs, makeRoomOutput e.outputMap output = some (store.output output) := by
      intro output ho
      obtain ⟨context, hl, hv⟩ := Option.map_eq_some_iff.1 (h.outputs output (List.mem_flatMap.2 ⟨room, hr, ho⟩))
      rw [makeRoomOutput, hl, Option.map_some, hv, makeRoomIoData_shown]
      rfl
    rw [makeRoomIos, List.filterMap_congr hin, List.filterMap_congr hout]
    simp
  unfold HomeData.new Store.home
  congr 1
  refine List.map_congr_left ?_
  intro room hr
  rw [hroom room hr]

/-- One step of the engine is one step of the store. -/
theorem Refines.step {l : Engine.Label} (h : Refines io store e) (hs : Engine.step io e l = some e') :
    Refines io (store.step l) e' := by
  obtain ⟨hin, hout, _⟩ := Engine.step_maps hs
  cases l with
  | recv command =>
    replace hout : e'.outputMap = e.outputMap := hout
    rcases command with _ | ⟨⟨id, action⟩⟩ | handler
    · exact ⟨by rw [hin]; exact h.inputs, by rw [hout]; exact h.outputs⟩
    · cases action with
      | setValue value =>
        refine ⟨?_, by rw [hout]; exact h.outputs⟩
        intro input hi
        have hold := h.inputs input hi
        rw [hin, show Engine.nextInputs e.inputMap _ = Engine.writeInput e.inputMap id value from rfl,
          Engine.writeInput, HMap.lookup_modify_eq]
        simp only [Store.step, Function.update_apply]
        by_cases hid : input.id = id
        · rw [hid] at hold
          obtain ⟨context, hl, _⟩ := Option.map_eq_some_iff.1 hold
          simp [hid, hl]
        · simp [hid, hold]
      | toggle | stop => exact ⟨by rw [hin]; exact h.inputs, by rw [hout]; exact h.outputs⟩
    · exact ⟨by rw [hin]; exact h.inputs, by rw [hout]; exact h.outputs⟩
  | feedback d =>
    refine ⟨by rw [hin]; exact h.inputs, ?_⟩
    intro output ho
    have hold := h.outputs output ho
    rw [hout, show Engine.nextOutputs e.outputMap _ = Engine.writeOutput e.outputMap d.id d.value from rfl,
      Engine.writeOutput, HMap.lookup_modify_eq]
    simp only [Store.step, Function.update_apply]
    by_cases hid : output.id = d.id
    · rw [hid] at hold
      obtain ⟨context, hl, _⟩ := Option.map_eq_some_iff.1 hold
      simp [hid, hl]
    · simp [hid, hold]
  | sent | sendFails | feedbackFails =>
    exact ⟨by rw [hin]; exact h.inputs, by rw [hout]; exact h.outputs⟩

theorem refines_init (io : IoConfig) (rulesConfig : Rules.RulesConfig) :
    Refines io (storeOf [] []) (Engine.init io rulesConfig) := by
  obtain ⟨hin, hout⟩ := complete_make io rulesConfig
  constructor
  · intro input hi
    obtain ⟨context, hl⟩ := Option.isSome_iff_exists.1 (Finmap.lookup_isSome.2 (hin input hi))
    rw [show (Engine.init io rulesConfig).inputMap = makeInputContextMap io rulesConfig from rfl, hl,
      Option.map_some, value_makeInputContextMap hl]
    rfl
  · intro output ho
    obtain ⟨context, hl⟩ := Option.isSome_iff_exists.1 (Finmap.lookup_isSome.2 (hout output ho))
    rw [show (Engine.init io rulesConfig).outputMap = makeOutputContextMap io from rfl, hl,
      Option.map_some, value_makeOutputContextMap hl]
    rfl

end

/-! ## The command channel -/

/-- The engine and what is in its command channel. -/
structure Sys where
  engine : Engine.St
  rxInput : List IODataCmd

/-- A command is put into the channel, by whom ever; `handle_input` takes the next one, or finds the channel
closed; or the engine does anything else. -/
inductive Label where
  | enqueue (command : IODataCmd)
  | recv
  | closed
  | sent
  | sendFails
  | feedback (ioData : IOData)
  | feedbackFails

section
variable (io : IoConfig)

/-- A step of the engine that takes no command. -/
def Sys.engineStep (s : Sys) (l : Engine.Label) : Option Sys :=
  (Engine.step io s.engine l).map fun engine => { s with engine := engine }

/-- One step. -/
def step (s : Sys) : Label → Option Sys
  | .enqueue command => some { s with rxInput := s.rxInput ++ [command] }
  | .recv =>
    match s.rxInput with
    | command :: rest =>
      (Engine.step io s.engine (.recv (some command))).map fun engine => { engine := engine, rxInput := rest }
    | [] => none
  | .closed => if s.rxInput.isEmpty then s.engineStep io (.recv none) else none
  | .sent => s.engineStep io .sent
  | .sendFails => s.engineStep io .sendFails
  | .feedback ioData => s.engineStep io (.feedback ioData)
  | .feedbackFails => s.engineStep io .feedbackFails

def init (rulesConfig : Rules.RulesConfig) : Sys := ⟨Engine.init io rulesConfig, []⟩

end

/-- All commands put into the channel so far. -/
def enqueued (past : List Label) : List IODataCmd :=
  past.filterMap fun
    | .enqueue command => some command
    | _ => none

/-- All feedback processed so far. -/
def feedbacks (past : List Label) : List IOData :=
  past.filterMap fun
    | .feedback ioData => some ioData
    | _ => none

/-- The requests for the home among the commands. -/
def requests (commands : List IODataCmd) : List Nat :=
  commands.filterMap fun
    | .getAllData handler => some handler
    | .action _ => none

/-- The `k`-th answer, given in this history: it is for the `k`-th request of the channel, and it is a read
of the store that the commands before that request and the feedback processed by then make. -/
def Answered (io : IoConfig) (past : List Label) (k handler : Nat) (data : HomeData) : Prop :=
  ∃ before after commands later, past = before ++ .recv :: after ∧
    enqueued before = commands ++ .getAllData handler :: later ∧ (requests commands).length = k ∧
    data = (storeOf commands (feedbacks before)).home io

/-- What every step keeps. -/
structure Current (io : IoConfig) (past : List Label) (processed : List IODataCmd) (s : Sys) : Prop where
  fifo : enqueued past = processed ++ s.rxInput
  refines : Refines io (storeOf processed (feedbacks past)) s.engine
  count : s.engine.answers.length = (requests processed).length
  answers : ∀ (k handler : Nat) (data : HomeData), s.engine.answers[k]? = some (handler, data) →
    Answered io past k handler data

section
variable {io : IoConfig} {rulesConfig : Rules.RulesConfig} {past : List Label} {processed : List IODataCmd} {s s' : Sys}

theorem Answered.append {k handler : Nat} {data : HomeData} (h : Answered io past k handler data) (l : Label) :
    Answered io (past ++ [l]) k handler data := by
  obtain ⟨before, after, commands, later, rfl, hrest⟩ := h
  exact ⟨before, after ++ [l], commands, later, by simp, hrest⟩

/-- A step of the engine that takes no command. -/
theorem Current.engineStep {l : Label} {el : Engine.Label} (h : Current io past processed s)
    (hs : s.engineStep io el = some s') (henq : enqueued (past ++ [l]) = enqueued past)
    (hstore : storeOf processed (feedbacks (past ++ [l])) = (storeOf processed (feedbacks past)).step el)
    (hans : Engine.nextAnswers io s.engine el = []) : Current io (past ++ [l]) processed s' := by
  obtain ⟨e, he, rfl⟩ := Option.map_eq_some_iff.1 hs
  have hsame : e.answers = s.engine.answers := by
    rw [(Engine.step_maps he).2.2, hans, List.append_nil]
  refine ⟨henq.trans h.fifo, by rw [hstore]; exact h.refines.step he, by rw [hsame]; exact h.count, ?_⟩
  intro k handler data hk
  rw [hsame] at hk
  exact (h.answers k handler data hk).append l

/-- `handle_input` takes a command. -/
theorem Current.recv {command : IODataCmd} {rest : List IODataCmd} {e : Engine.St}
    (h : Current io past processed s) (hq : s.rxInput = command :: rest)
    (he : Engine.step io s.engine (.recv (some command)) = some e) :
    Current io (past ++ [.recv]) (processed ++ [command]) { engine := e, rxInput := rest } := by
  have hans := (Engine.step_maps he).2.2
  have hfed : feedbacks (past ++ [.recv]) = feedbacks past := by simp [feedbacks]
  have hfifo : enqueued past = processed ++ command :: rest := by rw [h.fifo, hq]
  refine ⟨?_, ?_, ?_, ?_⟩
  · simpa [enqueued] using hfifo
  · rw [hfed, storeOf_command]
    exact h.refines.step he
  · rw [hans, List.length_append, h.count]
    cases command <;> simp [requests, Engine.nextAnswers, Engine.answerTo]
  · intro k handler data hk
    rw [hans] at hk
    rcases Nat.lt_or_ge k s.engine.answers.length with hlt | hge
    · rw [List.getElem?_append_left hlt] at hk
      exact (h.answers k handler data hk).append .recv
    · rw [List.getElem?_append_right hge] at hk
      cases command with
      | action ioAction => cases hk
      | getAllData handler' =>
        simp only [Engine.nextAnswers, Engine.answerTo, List.getElem?_singleton, Option.ite_none_right_eq_some,
          Option.some.injEq, Prod.mk.injEq] at hk
        obtain ⟨hzero, rfl, rfl⟩ := hk
        refine ⟨past, [], processed, rest, rfl, hfifo, ?_, h.refines.home⟩
        rw [← h.count]
        omega

/-- One step. -/
theorem Current.step {l : Label} (h : Current io past processed s) (hs : step io s l = some s') :
    ∃ processed', Current io (past ++ [l]) processed' s' := by
  cases l with
  | enqueue command =>
    cases hs
    refine ⟨processed, ?_, ?_, h.count, ?_⟩
    · have := h.fifo
      simp [enqueued] at this ⊢
      simp [this]
    · rw [show feedbacks (past ++ [.enqueue command]) = feedbacks past by simp [feedbacks]]
      exact h.refines
    · intro k handler data hk
      exact (h.answers k handler data hk).append _
  | recv =>
    simp only [HomeStore.step] at hs
    split at hs
    · obtain ⟨e, he, rfl⟩ := Option.map_eq_some_iff.1 hs
      exact ⟨_, h.recv ‹_› he⟩
    · cases hs
  | closed =>
    simp only [HomeStore.step] at hs
    split at hs
    · exact ⟨processed, h.engineStep hs (by simp [enqueued]) (by simp [feedbacks, Store.step]) rfl⟩
    · cases hs
  | feedback ioData =>
    refine ⟨processed, h.engineStep hs (by simp [enqueued]) ?_ rfl⟩
    rw [show feedbacks (past ++ [.feedback ioData]) = feedbacks past ++ [ioData] by simp [feedbacks]]
    exact storeOf_feedback processed (feedbacks past) ioData
  | sent | sendFails | feedbackFails =>
    exact ⟨processed, h.engineStep hs (by simp [enqueued]) (by simp [feedbacks, Store.step]) rfl⟩

theorem run_current {past : List Label} (h : run (step io) (init io rulesConfig) past = some s) :
    ∃ processed, Current io past processed s := by
  have hinit : ∃ processed, Current io [] processed (init io rulesConfig) :=
    ⟨[], rfl, refines_init io rulesConfig, rfl, fun k handler data hk => by simp [init, Engine.init] at hk⟩
  refine run_history (step io) (I := fun past s => ∃ processed, Current io past processed s) ?_ hinit h
  intro past' t l t' hcurrent hs
  obtain ⟨_, hc⟩ := hcurrent
  exact hc.step hs

/-- **The home is a complete and current snapshot**: every answer is one read of the store, made by the
values set before its request in the order of the channel and by the feedback processed until then. So an
input shows what was set before the request, or what was set later. -/
theorem home_current {k handler : Nat} {data : HomeData} (hr : run (step io) (init io rulesConfig) past = some s)
    (hk : s.engine.answers[k]? = some (handler, data)) :
    ∃ before after commands later, past = before ++ .recv :: after ∧
      enqueued before = commands ++ .getAllData handler :: later ∧ (requests commands).length = k ∧
      data = (storeOf commands (feedbacks before)).home io ∧
      ∀ (i : Nat) (id : String) (value : IOValue), commands[i]? = some (.action ⟨id, .setValue value⟩) →
        ∃ (j : Nat) (value' : IOValue), i ≤ j ∧ commands[j]? = some (.action ⟨id, .setValue value'⟩) ∧
          (storeOf commands (feedbacks before)).inputs id = some value' := by
  obtain ⟨_, hc⟩ := run_current hr
  obtain ⟨before, after, commands, later, hpast, henq, hcount, hdata⟩ := hc.answers k handler data hk
  exact ⟨before, after, commands, later, hpast, henq, hcount, hdata, fun i id value hi => lastSet_not_older hi⟩

end

/-- The dimmer is set to `5`, the lamp goes on, and a client asks for the home, just before somebody turns the
dimmer to `7`. -/
def dimmedAndAsked : List Label :=
  [.enqueue (.action ⟨"dimmer", .setValue (.int 5)⟩), .recv, .feedback ⟨"lamp", .bool true⟩,
    .enqueue (.getAllData 0), .enqueue (.action ⟨"dimmer", .setValue (.int 7)⟩), .recv, .recv]

theorem home_current_hall :
    ∃ s data, run (step Engine.hall) (init Engine.hall ⟨[]⟩) dimmedAndAsked = some s ∧
      s.engine.answers[0]? = some (0, data) ∧
      ∃ before after commands later, dimmedAndAsked = before ++ .recv :: after ∧
        enqueued before = commands ++ .getAllData 0 :: later ∧ (requests commands).length = 0 ∧
        data = (storeOf commands (feedbacks before)).home Engine.hall ∧
        ∀ (i : Nat) (id : String) (value : IOValue), commands[i]? = some (.action ⟨id, .setValue value⟩) →
          ∃ (j : Nat) (value' : IOValue), i ≤ j ∧ commands[j]? = some (.action ⟨id, .setValue value'⟩) ∧
            (storeOf commands (feedbacks before)).inputs id = some value' := by
  obtain ⟨s, data, hr, hk⟩ :
      ∃ s data, run (step Engine.hall) (init Engine.hall ⟨[]⟩) dimmedAndAsked = some s ∧
        s.engine.answers[0]? = some (0, data) := ⟨_, _, rfl, rfl⟩
  exact ⟨s, data, hr, hk, home_current hr hk⟩

end Calaos.HomeStore
