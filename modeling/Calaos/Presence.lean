import Calaos.History
import Calaos.MqttClient
import Mathlib.Data.List.TakeWhile
/-!
# MQTT presence

Three kinds of request matter for the presence: the announcement `online`, the announcement `offline`, and
the subscription to the commands (`matters`). `start` makes the first and the last once, and in a run
without a shutdown nobody makes another. So they are on their way in this order until the broker has them
(`Stage`), and what a lost connection undoes after that stays undone.
-/
namespace Calaos.Mqtt

open History Runs

/-! ## Topics -/

theorem append_ne_of_getLast {a b c d : String} (h : c.toList.getLast? ≠ d.toList.getLast?)
    (hc : c.toList ≠ []) (hd : d.toList ≠ []) : a ++ c ≠ b ++ d := by
  intro he
  have := congrArg (fun s : String => s.toList.getLast?) he
  simp only [String.toList_append, List.getLast?_append_of_ne_nil _ hc,
    List.getLast?_append_of_ne_nil _ hd] at this
  exact h this

theorem entityAvailabilityTopic_ne (config : MqttConfig) (id : String) :
    entityAvailabilityTopic config id ≠ availabilityTopic config := by
  intro h
  have := congrArg (fun s : String => s.toList.length) h
  simp [entityAvailabilityTopic, availabilityTopic, String.toList_append] at this

theorem discoveryTopic_ne (config : MqttConfig) (component : String) (room : Room) (id : String) :
    discoveryTopic config component room id ≠ availabilityTopic config :=
  append_ne_of_getLast (by decide) (by decide) (by decide)

theorem statusTopic_ne (config : MqttConfig) : statusTopic ≠ commandFilter config := by
  have h : "homeassistant/statu" ++ "s" ≠ config.nodeId ++ "/set/+" :=
    append_ne_of_getLast (by decide) (by decide) (by decide)
  exact h

section
variable {config : MqttConfig} {io : IoConfig}

variable (config) in
/-- The requests that change the presence. -/
def matters : Request → Bool
  | .publish topic retain _ => retain && decide (topic = availabilityTopic config)
  | .subscribe filter => decide (filter = commandFilter config)

theorem matters_publishState (state : IOData) : matters config (publishState config state) = false := rfl

/-- The messages about the availability of the entities. -/
theorem mem_publishEntities {payload : String} {request : Request}
    (h : request ∈ publishEntities config io payload) :
    ∃ id, request = .publish (entityAvailabilityTopic config id) true (.text payload) := by
  obtain ⟨room, _, hr⟩ := List.mem_flatMap.1 h
  rcases List.mem_append.1 hr with hr | hr <;> obtain ⟨entity, _, rfl⟩ := List.mem_map.1 hr <;> exact ⟨_, rfl⟩

/-- The discovery messages. -/
theorem mem_publishDiscoveryWith {request : Request} (h : request ∈ publishDiscoveryWith config io) :
    ∃ component room id tree, request = .publish (discoveryTopic config component room id) true (.json tree) := by
  obtain ⟨room, _, hr⟩ := List.mem_flatMap.1 h
  rcases List.mem_append.1 hr with hr | hr
  · obtain ⟨input, _, rfl⟩ := List.mem_map.1 hr
    exact ⟨_, _, _, _, rfl⟩
  · obtain ⟨output, _, rfl⟩ := List.mem_map.1 hr
    unfold outputDiscovery
    split <;> exact ⟨_, _, _, _, rfl⟩

theorem filter_publishEntities (payload : String) :
    (publishEntities config io payload).filter (matters config) = [] := by
  refine List.filter_eq_nil_iff.2 ?_
  intro request hr
  obtain ⟨id, rfl⟩ := mem_publishEntities hr
  simp [matters, entityAvailabilityTopic_ne]

theorem filter_publishDiscoveryWith : (publishDiscoveryWith config io).filter (matters config) = [] := by
  refine List.filter_eq_nil_iff.2 ?_
  intro request hr
  obtain ⟨component, room, id, tree, rfl⟩ := mem_publishDiscoveryWith hr
  simp [matters, discoveryTopic_ne]

/-- `start` announces itself once and subscribes once, in this order. -/
theorem filter_setup : (setup config io).filter (matters config) =
    [publishAvailabilityOnline config, .subscribe (commandFilter config)] := by
  have hfirst : matters config (publishAvailabilityOnline config) = true := by
    simp [matters, publishAvailabilityOnline]
  have hlast : (subscribeToCommands config).filter (matters config) = [.subscribe (commandFilter config)] := by
    simp [subscribeToCommands, matters, statusTopic_ne]
  rw [setup, publishEntitiesAvailabilityOnline, List.cons_append, List.cons_append, List.filter_cons_of_pos hfirst,
    List.filter_append, List.filter_append, filter_publishEntities, filter_publishDiscoveryWith, hlast]
  rfl

/-- The event loop does neither. -/
theorem filter_reaction (payload : String) : (reaction config io payload).filter (matters config) = [] := by
  unfold reaction
  split
  · rw [List.filter_append, filter_publishDiscoveryWith, publishEntitiesAvailabilityOnline, filter_publishEntities]
    rfl
  · rfl

/-- The subscription to the status comes last. A client that gets as far as that has been refused nothing, and what it
publishes when Home Assistant comes online is not refused either. -/
theorem accepted_of_subscribed {accepts : Request → Bool}
    (h : Request.subscribe statusTopic ∈ passed accepts (setup config io)) :
    passed accepts (setup config io) = setup config io ∧
      ∀ payload, ∀ request ∈ reaction config io payload, accepts request = true := by
  let first : List Request := publishAvailabilityOnline config :: publishEntitiesAvailabilityOnline config io ++
    publishDiscoveryWith config io ++ [.subscribe (commandFilter config)]
  have hsetup : setup config io = first ++ [.subscribe statusTopic] := by
    simp [first, setup, subscribeToCommands]
  have hfirst : Request.subscribe statusTopic ∉ first := by
    intro hmem
    simp only [first, publishAvailabilityOnline, List.mem_append, List.mem_cons, List.not_mem_nil, or_false,
      reduceCtorEq, false_or, Request.subscribe.injEq] at hmem
    rcases hmem with (hmem | hmem) | hmem
    · obtain ⟨_, hr⟩ := mem_publishEntities hmem
      cases hr
    · obtain ⟨_, _, _, _, hr⟩ := mem_publishDiscoveryWith hmem
      cases hr
    · exact statusTopic_ne config hmem
  have hall : passed accepts (setup config io) = setup config io := by
    rw [hsetup, passed, List.takeWhile_append] at h ⊢
    split at h
    · rw [if_pos ‹_›, List.takeWhile_eq_self_iff.2]
      intro request hr
      obtain rfl := List.mem_singleton.1 hr
      have hlast := (List.mem_append.1 h).resolve_left hfirst
      exact List.mem_takeWhile_imp hlast
    · exact absurd (List.takeWhile_prefix accepts |>.subset h) hfirst
  refine ⟨hall, fun payload request hr => ?_⟩
  refine List.takeWhile_eq_self_iff.1 hall request ?_
  unfold reaction at hr
  split at hr
  · rcases List.mem_append.1 hr with hr | hr <;> simp [setup, hr]
  · cases hr

/-! ## One step -/

/-- The requests of `start` that the broker does not have. -/
def St.onTheWay (s : St) : List Request := s.queue ++ s.todo

variable (config) in
/-- The broker has the announcement of `start`. -/
def Announced (s : St) : Prop := publishAvailabilityOnline config ∉ s.onTheWay

variable (config) in
/-- What the broker says of us. -/
def availability (s : St) : Option Payload := s.retained.lookup (availabilityTopic config)

variable (config) in
/-- The client is subscribed to the commands, and announced as online. -/
def Present (s : St) : Prop :=
  commandFilter config ∈ s.subscriptions ∧ availability config s = some (.text "online")

variable (config) in
/-- How far the announcement and the subscription have come; `early` says that no connection was lost after
the broker had the announcement. -/
inductive Stage (early : Prop) (s : St) : Prop where
  | before (h : s.onTheWay.filter (matters config) =
      [publishAvailabilityOnline config, .subscribe (commandFilter config)]) (he : early)
  | between (h : s.onTheWay.filter (matters config) = [.subscribe (commandFilter config)])
      (he : early → availability config s = some (.text "online"))
      (hl : ¬ early → availability config s = some (.text "offline"))
  | after (h : s.onTheWay.filter (matters config) = [])
      (he : early → Present config s ∧ s.connected = true)
      (hl : ¬ early → availability config s = some (.text "offline"))

variable (config) in
/-- What every step keeps as long as no shutdown is requested. -/
structure Inv (early : Prop) (s : St) : Prop where
  stage : Stage config early s
  served : s.phase ≠ .setup → s.todo.filter (matters config) = []
  busy : s.busy.filter (matters config) = []

variable {early : Prop} {s s' : St} {l : Label}

theorem announced_iff (h : Stage config early s) :
    Announced config s ↔ s.onTheWay.filter (matters config) ≠
      [publishAvailabilityOnline config, .subscribe (commandFilter config)] := by
  have hmatters : matters config (publishAvailabilityOnline config) = true := by
    simp [matters, publishAvailabilityOnline]
  constructor
  · intro ha he
    refine ha (List.mem_filter.1 (?_ : publishAvailabilityOnline config ∈ s.onTheWay.filter (matters config))).1
    rw [he]
    exact List.mem_cons_self
  · intro hne hmem
    have hf : publishAvailabilityOnline config ∈ s.onTheWay.filter (matters config) :=
      List.mem_filter.2 ⟨hmem, hmatters⟩
    cases h with
    | before h => exact hne h
    | between h =>
      rw [h] at hf
      cases List.mem_singleton.1 hf
    | after h =>
      rw [h] at hf
      cases hf

/-- Nothing that matters has happened. -/
theorem Stage.same (h : Stage config early s) (hf : s'.onTheWay.filter (matters config) =
      s.onTheWay.filter (matters config)) (ha : availability config s' = availability config s)
    (hs : s.connected = true → commandFilter config ∈ s.subscriptions →
      commandFilter config ∈ s'.subscriptions ∧ s'.connected = true) : Stage config early s' := by
  cases h with
  | before h he => exact .before (hf.trans h) he
  | between h he hl =>
    exact .between (hf.trans h) (fun e => ha.trans (he e)) fun e => ha.trans (hl e)
  | after h he hl =>
    refine .after (hf.trans h) ?_ fun e => ha.trans (hl e)
    intro e
    obtain ⟨⟨hsub, hon⟩, hc⟩ := he e
    obtain ⟨hsub', hc'⟩ := hs hc hsub
    exact ⟨⟨hsub', ha.trans hon⟩, hc'⟩

/-- A request that does not matter. -/
theorem handle_other {request : Request} (h : matters config request = false) (s : St) :
    availability config (s.handle request) = availability config s ∧
      ∀ filter ∈ s.subscriptions, filter ∈ (s.handle request).subscriptions := by
  cases request with
  | publish topic retain payload =>
    cases retain with
    | false => exact ⟨rfl, fun _ hf => hf⟩
    | true =>
      have hne : availabilityTopic config ≠ topic := by
        intro he
        simp [matters, he] at h
      exact ⟨Finmap.lookup_insert_of_ne _ hne, fun _ hf => hf⟩
  | subscribe filter => exact ⟨rfl, fun _ hf => List.mem_cons_of_mem _ hf⟩

/-- The broker gets the next request. -/
theorem Stage.deliver {request : Request} {rest : List Request} (h : Stage config early s)
    (hq : s.queue = request :: rest) (hc : s.connected = true) :
    Stage config early ({ s with queue := rest }.handle request) := by
  have hway : s.onTheWay = request :: (rest ++ s.todo) := by simp [St.onTheWay, hq]
  have hway' : ({ s with queue := rest }.handle request).onTheWay = rest ++ s.todo := by simp [St.onTheWay]
  cases hm : matters config request with
  | false =>
    obtain ⟨hav, hsub⟩ := handle_other hm { s with queue := rest }
    refine h.same ?_ hav fun _ hs => ⟨hsub _ hs, (handle_connected _ _).trans hc⟩
    rw [hway', hway, List.filter_cons_of_neg (by simp [hm])]
  | true =>
    have hfilter : s.onTheWay.filter (matters config) =
        request :: ({ s with queue := rest }.handle request).onTheWay.filter (matters config) := by
      rw [hway', hway, List.filter_cons_of_pos hm]
    cases h with
    | before h he =>
      rw [hfilter] at h
      obtain ⟨rfl, h⟩ := List.cons.inj h
      have honline : availability config ({ s with queue := rest }.handle (publishAvailabilityOnline config)) =
          some (.text "online") := Finmap.lookup_insert _
      exact .between h (fun _ => honline) fun hn => absurd he hn
    | between h he hl =>
      rw [hfilter] at h
      obtain ⟨rfl, h⟩ := List.cons.inj h
      exact .after h (fun e => ⟨⟨List.mem_cons_self, he e⟩, hc⟩) hl
    | after h =>
      rw [hfilter] at h
      cases h

/-- A lost connection undoes what the broker had. -/
theorem Stage.loss (h : Stage config early s) :
    Stage config (early ∧ ¬ Announced config s)
      ({ s with connected := false, subscriptions := [] }.handle (lastWill config)) := by
  have hoffline : availability config
      ({ s with connected := false, subscriptions := [] }.handle (lastWill config)) = some (.text "offline") :=
    Finmap.lookup_insert _
  have han := announced_iff h
  cases h with
  | before h he => exact .before h ⟨he, fun ha => han.1 ha h⟩
  | between h =>
    exact .between h (fun e => absurd (han.2 (by rw [h]; simp)) e.2) fun _ => hoffline
  | after h => exact .after h (fun e => absurd (han.2 (by rw [h]; simp)) e.2) fun _ => hoffline

/-- A shutdown is not taken back. -/
theorem shutdownRequested_step (hs : step config io s l = some s') (h : s.shutdownRequested = true) :
    s'.shutdownRequested = true := by
  cases Step.of_step hs with
  | requestShutdown => rfl
  | deliver request rest => exact (handle_shutdownRequested _ _).trans h
  | shutdown | state | recvFails | put | putBusy | status | connect | loss => exact h

/-- One step. -/
theorem Inv.step (hi : Inv config early s) (hs : step config io s l = some s')
    (hno : s'.shutdownRequested = false) : Inv config (early ∧ (l = .loss → ¬ Announced config s)) s' := by
  have hsame : l ≠ .loss → (early ∧ (l = .loss → ¬ Announced config s)) = early :=
    fun h => propext (and_iff_left fun h' => absurd h' h)
  cases Step.of_step hs with
  | requestShutdown => cases hno
  | shutdown hp ht hr =>
    rw [hr] at hno
    cases hno
  | state ioData hp ht =>
    rw [hsame nofun]
    refine ⟨hi.stage.same ?_ rfl fun hc hf => ⟨hf, hc⟩, ?_, hi.busy⟩
    · simp [St.onTheWay, ht, matters_publishState]
    · intro _
      simp [matters_publishState]
  | recvFails hp ht =>
    rw [hsame nofun]
    exact ⟨hi.stage.same rfl rfl fun hc hf => ⟨hf, hc⟩, fun _ => by simp [ht], hi.busy⟩
  | put request rest ht =>
    rw [hsame nofun]
    refine ⟨hi.stage.same ?_ rfl fun hc hf => ⟨hf, hc⟩, ?_, hi.busy⟩
    · simp [St.onTheWay, ht]
    · intro hp
      cases rest with
      | nil => rfl
      | cons next rest =>
        have hserved := hi.served hp
        rw [ht, List.filter_eq_nil_iff] at hserved
        exact List.filter_eq_nil_iff.2 fun r hr => hserved r (List.mem_cons_of_mem _ hr)
  | putBusy request rest hb =>
    rw [hsame nofun]
    have hbusy := hi.busy
    rw [hb, List.filter_eq_nil_iff] at hbusy
    refine ⟨hi.stage.same ?_ rfl fun hc hf => ⟨hf, hc⟩, hi.served, ?_⟩
    · simp [St.onTheWay, List.filter_cons_of_neg (hbusy request (by simp))]
    · exact List.filter_eq_nil_iff.2 fun r hr => hbusy r (List.mem_cons_of_mem _ hr)
  | status payload =>
    rw [hsame nofun]
    exact ⟨hi.stage.same rfl rfl fun hc hf => ⟨hf, hc⟩, hi.served, filter_reaction payload⟩
  | connect hc =>
    rw [hsame nofun]
    exact ⟨hi.stage.same rfl rfl fun h => absurd h hc.1, hi.served, hi.busy⟩
  | loss =>
    have hearly : (early ∧ (Label.loss = .loss → ¬ Announced config s)) = (early ∧ ¬ Announced config s) := by
      simp
    rw [hearly]
    exact ⟨hi.stage.loss, hi.served, hi.busy⟩
  | deliver request rest hq hc =>
    rw [hsame nofun]
    refine ⟨hi.stage.deliver hq hc.1, ?_, by simpa using hi.busy⟩
    intro h
    rw [handle_phase] at h
    rw [handle_todo]
    exact hi.served h

/-! ## Runs -/

variable (config io) in
/-- No connection was lost after the broker had the announcement of `start`. -/
def EarlyLosses (retained : HMap String Payload) (ls : List Label) : Prop :=
  Explained (fun past l => l = .loss → ∀ t, run (step config io) (init config io retained) past = some t →
    ¬ Announced config t) ls

theorem inv_init (retained : HMap String Payload) :
    Inv config (EarlyLosses config io retained []) (init config io retained) where
  stage := .before filter_setup .nil
  served h := absurd rfl h
  busy := rfl

theorem run_inv {retained : HMap String Payload} {ls : List Label}
    (h : run (step config io) (init config io retained) ls = some s) (hno : s.shutdownRequested = false) :
    Inv config (EarlyLosses config io retained ls) s := by
  have hrun := run_history (step config io)
    (I := fun past t => run (step config io) (init config io retained) past = some t ∧
      (t.shutdownRequested = false → Inv config (EarlyLosses config io retained past) t))
    (fun past t l t' hi hs => by
      obtain ⟨hr, hi⟩ := hi
      refine ⟨by simp [run_append, hr, run, hs], ?_⟩
      intro hno
      have hbefore : t.shutdownRequested = false := by
        cases hreq : t.shutdownRequested with
        | false => rfl
        | true => rw [shutdownRequested_step hs hreq] at hno; cases hno
      have hearly : EarlyLosses config io retained (past ++ [l]) =
          (EarlyLosses config io retained past ∧ (l = .loss → ¬ Announced config t)) := by
        rw [EarlyLosses, explained_append, hr]
        simp [EarlyLosses]
      rw [hearly]
      exact (hi hbefore).step hs hno)
    ⟨rfl, fun _ => inv_init retained⟩ h
  exact hrun.2 hno

/-- The client is connected, `start` has finished its setup, no shutdown was requested, and the queue is
empty. -/
structure Settled (s : St) : Prop where
  connected : s.connected = true
  setup : s.phase ≠ .setup
  running : s.shutdownRequested = false
  queue : s.queue = []

/-- **The presence survives** the connections that are lost before the broker has the announcement of
`start`, and no others. -/
theorem present_iff {retained : HMap String Payload} {ls : List Label}
    (h : run (step config io) (init config io retained) ls = some s) (hs : Settled s) :
    Present config s ↔ EarlyLosses config io retained ls := by
  have hi := run_inv h hs.running
  have hway : s.onTheWay.filter (matters config) = [] := by
    rw [St.onTheWay, hs.queue, List.nil_append]
    exact hi.served hs.setup
  cases hi.stage with
  | before h => rw [hway] at h; cases h
  | between h => rw [hway] at h; cases h
  | after _ he hl =>
    refine ⟨?_, fun e => (he e).1⟩
    intro hp
    by_contra hlate
    have := hp.2.symm.trans (hl hlate)
    simp at this

/-! ## The client comes online -/

/-- The client is connected, and nothing waits for the broker. -/
structure Idle (s : St) : Prop where
  connected : s.connected = true
  busy : s.busy = []
  queue : s.queue = []

variable (config io) in
/-- The next request of `start` goes to the broker at once. -/
theorem Idle.put {request : Request} {rest : List Request} (hi : Idle s) (ht : s.todo = request :: rest) :
    ∃ t, run (step config io) s [.put, .deliver] = some t ∧ Idle t ∧ t.todo = rest ∧
      t.phase = (if rest.isEmpty then s.phase.next else s.phase) ∧
      (∀ filter ∈ s.subscriptions, filter ∈ t.subscriptions) ∧
      ∀ filter, request = .subscribe filter → filter ∈ t.subscriptions := by
  obtain ⟨hc, hb, hq⟩ := hi
  let s₁ : St := { s with
    phase := if rest.isEmpty then s.phase.next else s.phase
    todo := rest
    queue := [] }
  refine ⟨s₁.handle request, ?_, ⟨by simp [s₁, hc], by simp [s₁, hb], by simp [s₁]⟩, by simp [s₁],
    by simp [s₁], ?_, ?_⟩
  · have hroom : 0 < capacity := by decide
    simp [run, step, ht, hq, hc, hb, hroom, s₁]
  · intro filter hf
    cases request with
    | publish topic retain payload => cases retain <;> exact hf
    | subscribe => exact List.mem_cons_of_mem _ hf
  · rintro filter rfl
    exact List.mem_cons_self

variable (config io) in
/-- All the requests of a phase. -/
theorem Idle.flush : ∀ {todo : List Request} {s : St}, Idle s → s.todo = todo →
    ∃ t, run (step config io) s (todo.flatMap fun _ => [.put, .deliver]) = some t ∧ Idle t ∧ t.todo = [] ∧
      t.phase = (if todo.isEmpty then s.phase else s.phase.next) ∧
      (∀ filter ∈ s.subscriptions, filter ∈ t.subscriptions) ∧
      ∀ filter, .subscribe filter ∈ todo → filter ∈ t.subscriptions
  | [], s, hi, ht => ⟨s, rfl, hi, ht, rfl, fun _ hf => hf, fun _ hf => by cases hf⟩
  | request :: rest, s, hi, ht => by
    obtain ⟨t, hr, hit, htt, hphase, hkept, hnew⟩ := hi.put config io ht
    obtain ⟨u, hru, hiu, htu, hphaseu, hkeptu, hnewu⟩ := hit.flush htt
    refine ⟨u, ?_, hiu, htu, ?_, fun filter hf => hkeptu filter (hkept filter hf), ?_⟩
    · rw [List.flatMap_cons, run_append, hr, Option.bind_some, hru]
    · rw [hphaseu, hphase]
      cases rest <;> rfl
    · intro filter hf
      rcases List.mem_cons.1 hf with hf | hf
      · exact hkeptu filter (hnew filter hf.symm)
      · exact hnewu filter hf

variable (config io) in
/-- The client connects, and the broker gets the setup. -/
def comingOnline : List Label := .connect :: (setup config io).flatMap fun _ => [.put, .deliver]

variable (config io) in
theorem online_reached (retained : HMap String Payload) :
    ∃ s, run (step config io) (init config io retained) (comingOnline config io) = some s ∧ Idle s ∧
      s.phase = .serving ∧ s.todo = [] ∧ statusTopic ∈ s.subscriptions := by
  let s₀ : St := { init config io retained with connected := true }
  have hidle : Idle s₀ := ⟨rfl, rfl, rfl⟩
  obtain ⟨s, hr, hi, ht, hphase, _, hsub⟩ := hidle.flush config io (rfl : s₀.todo = setup config io)
  refine ⟨s, ?_, hi, hphase, ht, ?_⟩
  · rw [comingOnline, run_cons]
    exact ⟨s₀, rfl, hr⟩
  · have hmem : Request.subscribe statusTopic ∈ setup config io := by simp [setup, subscribeToCommands]
    exact hsub statusTopic hmem

end

/-! ## A house with one lamp -/

def calaos : MqttConfig := ⟨"homeassistant", "calaos"⟩

def lampHouse : IoConfig :=
  ⟨⟨[⟨"Hall", "hall", [], [⟨"Lamp", "lamp", "", .woDigital ⟨"wago", "502", 1⟩, "", true, true⟩], 0⟩]⟩⟩

/-- The client connects, and the broker gets the five requests of the setup. -/
def comesOnline : List Label := .connect :: List.replicate 5 .put ++ List.replicate 5 .deliver

/-- The connection is lost when the announcement is still in the queue, and the client connects again. -/
def comesBack : List Label := [.connect, .put, .loss, .connect] ++ List.replicate 4 .put ++ List.replicate 5 .deliver

theorem present_lampHouse :
    ∃ s, run (step calaos lampHouse) (init calaos lampHouse ∅) comesBack = some s ∧ Settled s ∧
      Present calaos s := by
  obtain ⟨s, hr, hs⟩ : ∃ s, run (step calaos lampHouse) (init calaos lampHouse ∅) comesBack = some s ∧ Settled s :=
    ⟨_, rfl, rfl, by decide, rfl, rfl⟩
  refine ⟨s, hr, hs, (present_iff hr hs).2 ?_⟩
  rintro before l after hl rfl t ht
  -- There is one loss only.
  have hsplit : [.connect, .put] ++ Label.loss :: comesBack.drop 3 = before ++ .loss :: after := hl
  obtain ⟨rfl, _, _⟩ := (List.append_cons_inj_of_notMem (by decide) (by decide)).1 hsplit
  obtain rfl := Option.some.inj ht
  exact fun ha => ha List.mem_cons_self

/-- The connection is lost once. From then on the house is deaf, and said to be offline. -/
theorem not_present_reconnected :
    ∃ s, run (step calaos lampHouse) (init calaos lampHouse ∅) (comesOnline ++ [.loss, .connect]) = some s ∧
      Settled s ∧ s.subscriptions = [] ∧ availability calaos s = some (.text "offline") ∧ ¬ Present calaos s := by
  refine ⟨_, rfl, ⟨rfl, by decide, rfl, rfl⟩, rfl, rfl, ?_⟩
  intro h
  cases h.1

end Calaos.Mqtt
