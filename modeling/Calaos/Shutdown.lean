import Calaos.Presence
/-!
# The retained availability after a shutdown

`start` puts its `offline` messages into the queue and ends, but nobody tells the event loop, which
still answers an `online` of Home Assistant. What a topic holds in the end is what was put there last
(`St.final`). From the moment that `start` has put its `offline` (`Over`) there will be no other one, so
the topic keeps it exactly if the event loop writes nothing more there (`BeforeOffline`).
-/
namespace Calaos.Mqtt

open Runs Serde

/-! ## Topics -/

/-- The topics under `availability` in a discovery message. -/
def listed : Request → List String
  | .publish _ _ (.json (.obj entries)) =>
    match entries.lookup "availability" with
    | some (.arr items) => items.filterMap fun
      | .obj entry => (entry.lookup "topic").bind De.string
      | _ => none
    | _ => []
  | _ => []

/-- What goes to a topic and is retained there. -/
def writes (topic : String) : Request → Option Payload
  | .publish topic' retain payload => if retain ∧ topic' = topic then some payload else none
  | .subscribe _ => none

/-- What is retained with one more request. -/
def keep (retained : HMap String Payload) : Request → HMap String Payload
  | .publish topic retain payload => if retain then retained.insert topic payload else retained
  | .subscribe _ => retained

/-- What the broker retains when it has got all of the queue. -/
def St.final (s : St) : HMap String Payload := s.queue.foldl keep s.retained

/-- What `start` puts on an availability topic in the end. -/
def offline (topic : String) : Request := .publish topic true (.text "offline")

theorem handle_retained (s : St) (request : Request) : (s.handle request).retained = keep s.retained request := by
  cases request with
  | publish topic retain payload => cases retain <;> rfl
  | subscribe filter => rfl

theorem writes_eq_some {topic topic' : String} {payload said : Payload} :
    writes topic (.publish topic' true payload) = some said ↔ topic' = topic ∧ payload = said := by
  simp [writes]

theorem lookup_keep (retained : HMap String Payload) (request : Request) (topic : String) :
    (keep retained request).lookup topic = (writes topic request).or (retained.lookup topic) := by
  cases request with
  | subscribe filter => rfl
  | publish topic' retain payload =>
    cases retain with
    | false => simp [keep, writes]
    | true =>
      by_cases ht : topic' = topic
      · subst ht
        simp [keep, writes]
      · simp [keep, writes, ht, Finmap.lookup_insert_of_ne _ (Ne.symm ht)]

/-- The last request that writes to a topic decides. -/
theorem lookup_foldl_keep (topic : String) (queue : List Request) (retained : HMap String Payload) :
    (queue.foldl keep retained).lookup topic =
      (queue.filterMap (writes topic)).getLast?.or (retained.lookup topic) := by
  induction queue using List.reverseRecOn with
  | nil => rfl
  | append_singleton queue request ih =>
    rw [List.foldl_append, List.filterMap_append, List.getLast?_append]
    simp only [List.foldl_cons, List.foldl_nil, lookup_keep, ih, ← Option.or_assoc]
    cases hw : writes topic request <;> simp [hw]

theorem lookup_final (s : St) (topic : String) :
    s.final.lookup topic = (s.queue.filterMap (writes topic)).getLast?.or (s.retained.lookup topic) :=
  lookup_foldl_keep topic s.queue s.retained

/-- One more request in the queue. -/
theorem final_append {s s' : St} {request : Request} (hq : s'.queue = s.queue ++ [request])
    (hr : s'.retained = s.retained) (topic : String) :
    s'.final.lookup topic = (writes topic request).or (s.final.lookup topic) := by
  rw [St.final, hq, hr, List.foldl_append]
  exact lookup_keep s.final request topic

/-- Delivery changes nothing. -/
theorem final_deliver {s : St} {request : Request} {rest : List Request} (hq : s.queue = request :: rest) :
    ({ s with queue := rest }.handle request).final = s.final := by
  rw [St.final, handle_queue, handle_retained, St.final, hq]
  rfl

section
variable {config : MqttConfig} {io : IoConfig}

variable (config io) in
/-- The topics of which some entity says that they are its availability. -/
def listedTopics : List String := (publishDiscoveryWith config io).flatMap listed

theorem listed_inputDiscovery (room : Room) (input : Input) : listed (inputDiscovery config room input) =
    [availabilityTopic config, entityAvailabilityTopic config input.id] := rfl

theorem listed_outputDiscovery (room : Room) (output : Output) : listed (outputDiscovery config room output) =
    [availabilityTopic config, entityAvailabilityTopic config output.id] := by
  unfold outputDiscovery
  split <;> rfl

/-- Every listed topic gets an `offline`. -/
theorem offline_mem {topic : String} (h : topic ∈ listedTopics config io) :
    offline topic ∈ publishEntitiesAvailabilityOffline config io := by
  obtain ⟨request, hr, ht⟩ := List.mem_flatMap.1 h
  obtain ⟨room, hroom, hr⟩ := List.mem_flatMap.1 hr
  rcases List.mem_append.1 hr with hr | hr
  · obtain ⟨input, hi, rfl⟩ := List.mem_map.1 hr
    rw [listed_inputDiscovery] at ht
    rcases List.mem_pair.1 ht with rfl | rfl
    · exact List.mem_cons_self
    · refine List.mem_cons_of_mem _ (List.mem_flatMap.2 ⟨room, hroom, List.mem_append_left _ ?_⟩)
      exact List.mem_map.2 ⟨input, hi, rfl⟩
  · obtain ⟨output, ho, rfl⟩ := List.mem_map.1 hr
    rw [listed_outputDiscovery] at ht
    rcases List.mem_pair.1 ht with rfl | rfl
    · exact List.mem_cons_self
    · refine List.mem_cons_of_mem _ (List.mem_flatMap.2 ⟨room, hroom, List.mem_append_right _ ?_⟩)
      exact List.mem_map.2 ⟨output, ho, rfl⟩

/-- `start` ends with nothing else. -/
theorem of_mem_publishEntitiesAvailabilityOffline {request : Request}
    (h : request ∈ publishEntitiesAvailabilityOffline config io) : ∃ topic, request = offline topic := by
  rcases List.mem_cons.1 h with rfl | h
  · exact ⟨_, rfl⟩
  · obtain ⟨id, rfl⟩ := mem_publishEntities h
    exact ⟨_, rfl⟩

/-- The event loop says `offline` of nothing, and nothing of the client. -/
theorem of_mem_reaction {payload topic : String} {request : Request} {said : Payload}
    (h : request ∈ reaction config io payload) (hw : writes topic request = some said) :
    said ≠ .text "offline" ∧ topic ≠ availabilityTopic config := by
  unfold reaction at h
  split at h
  · rcases List.mem_append.1 h with h | h
    · obtain ⟨component, room, id, tree, rfl⟩ := mem_publishDiscoveryWith h
      obtain ⟨rfl, rfl⟩ := writes_eq_some.1 hw
      exact ⟨by simp, discoveryTopic_ne _ _ _ _⟩
    · obtain ⟨id, rfl⟩ := mem_publishEntities h
      obtain ⟨rfl, rfl⟩ := writes_eq_some.1 hw
      exact ⟨by simp, entityAvailabilityTopic_ne _ _⟩
  · cases h

/-! ## One step -/

variable {topic : String} {met : Prop} {s s' : St} {l : Label}

/-- `start` is in its last phase. -/
def Stopped (s : St) : Prop := s.phase = .stopping ∨ s.phase = .done

theorem stopped_of_next {phase : Phase} (h : phase.next = .stopping ∨ phase.next = .done) :
    phase = .stopping ∨ phase = .done := by
  cases phase <;> simp [Phase.next] at h ⊢

/-- `start` has put its `offline` on this topic. -/
def Over (topic : String) (s : St) : Prop := Stopped s ∧ offline topic ∉ s.todo

/-- The event loop writes to the topic only before that. -/
def BeforeOffline (topic : String) (s : St) : Label → Prop
  | .putBusy => (∃ request ∈ s.busy.head?, (writes topic request).isSome) → ¬ Over topic s
  | _ => True

variable (config topic) in
/-- What every step keeps, with `met` for that every step was `BeforeOffline`. -/
structure Ending (met : Prop) (s : St) : Prop where
  todo : Stopped s → ∀ request ∈ s.todo, ∃ topic, request = offline topic
  done : s.phase = .done → s.todo = []
  busy : ∀ request ∈ s.busy, ∀ said, writes topic request = some said →
    said ≠ .text "offline" ∧ topic ≠ availabilityTopic config
  before : ¬ Over topic s → met
  shared : topic = availabilityTopic config → met
  decided : Over topic s → (met ↔ s.final.lookup topic = some (.text "offline"))

/-- `start` did nothing, and the topic will hold what it should as before. -/
theorem Ending.quiet (h : Ending config topic met s) (hp : s'.phase = s.phase) (ht : s'.todo = s.todo)
    (hb : s'.busy = s.busy) (hf : (met ↔ s.final.lookup topic = some (.text "offline")) →
      (met ↔ s'.final.lookup topic = some (.text "offline"))) : Ending config topic (met ∧ True) s' := by
  have hstopped : Stopped s' = Stopped s := by simp [Stopped, hp]
  have hover : Over topic s' = Over topic s := by simp [Over, hstopped, ht]
  rw [and_true]
  refine ⟨?_, ?_, ?_, ?_, h.shared, ?_⟩
  · rw [hstopped, ht]
    exact h.todo
  · rw [hp, ht]
    exact h.done
  · rw [hb]
    exact h.busy
  · rw [hover]
    exact h.before
  · rw [hover]
    exact fun ho => hf (h.decided ho)

/-- The topic will hold the same. -/
theorem Ending.same (h : Ending config topic met s) (hp : s'.phase = s.phase) (ht : s'.todo = s.todo)
    (hb : s'.busy = s.busy) (hf : s'.final.lookup topic = s.final.lookup topic) :
    Ending config topic (met ∧ True) s' :=
  h.quiet hp ht hb fun hiff => by rw [hf]; exact hiff

/-- `start` serves. -/
theorem Ending.serving (h : Ending config topic met s) (hn : ¬ Stopped s) (hn' : ¬ Stopped s')
    (hb : s'.busy = s.busy) : Ending config topic (met ∧ True) s' := by
  have hmet := h.before fun ho => hn ho.1
  rw [and_true]
  refine ⟨fun hs => absurd hs hn', fun hd => absurd (.inr hd) hn', ?_, fun _ => hmet, fun _ => hmet,
    fun ho => absurd ho.1 hn'⟩
  rw [hb]
  exact h.busy

/-- `start` puts its next `offline` into the queue. -/
theorem Ending.put {request : Request} {rest : List Request} (h : Ending config topic met s)
    (hs : Stopped s) (ht : s.todo = request :: rest) (ht' : s'.todo = rest)
    (hp : s'.phase = if rest.isEmpty then s.phase.next else s.phase) (hb : s'.busy = s.busy)
    (hf : s'.final.lookup topic = (writes topic request).or (s.final.lookup topic)) :
    Ending config topic (met ∧ True) s' := by
  have hs' : Stopped s' := by
    rcases hs with hs | hs <;> rw [Stopped, hp, hs] <;> cases rest <;> simp [Phase.next]
  have htodo := h.todo hs
  rw [ht] at htodo
  rw [and_true]
  refine ⟨?_, ?_, ?_, ?_, h.shared, ?_⟩
  · intro _ r hr
    rw [ht'] at hr
    exact htodo r (List.mem_cons_of_mem _ hr)
  · intro hd
    rw [ht']
    cases rest with
    | nil => rfl
    | cons next rest =>
      have hdone : s.phase = .done := hp.symm.trans hd
      have := h.done hdone
      rw [ht] at this
      cases this
  · rw [hb]
    exact h.busy
  · intro hn
    refine h.before fun ho => hn ⟨hs', ?_⟩
    rw [ht']
    intro hmem
    exact ho.2 (by rw [ht]; exact List.mem_cons_of_mem _ hmem)
  · intro ho
    obtain ⟨topic', rfl⟩ := htodo _ List.mem_cons_self
    by_cases htopic : topic' = topic
    · subst htopic
      have hmet := h.before fun ho' => ho'.2 (by rw [ht]; exact List.mem_cons_self)
      have hoffline : s'.final.lookup topic' = some (.text "offline") := by
        rw [hf]
        simp [writes, offline]
      exact iff_of_true hmet hoffline
    · have hbefore : Over topic s := by
        refine ⟨hs, ?_⟩
        rw [ht]
        intro hmem
        rcases List.mem_cons.1 hmem with he | hmem
        · simp only [offline, Request.publish.injEq] at he
          exact htopic he.1.symm
        · exact ho.2 (by rw [ht']; exact hmem)
      have hkept : s'.final.lookup topic = s.final.lookup topic := by
        rw [hf]
        simp [writes, offline, htopic]
      rw [hkept]
      exact h.decided hbefore

/-- The event loop puts a request into the queue. -/
theorem Ending.putBusy {request : Request} {rest : List Request} (h : Ending config topic met s)
    (hb : s.busy = request :: rest) (hb' : s'.busy = rest) (ht : s'.todo = s.todo) (hp : s'.phase = s.phase)
    (hf : s'.final.lookup topic = (writes topic request).or (s.final.lookup topic)) :
    Ending config topic (met ∧ BeforeOffline topic s .putBusy) s' := by
  have hstopped : Stopped s' = Stopped s := by simp [Stopped, hp]
  have hover : Over topic s' = Over topic s := by simp [Over, hstopped, ht]
  have hbusy := h.busy
  rw [hb] at hbusy
  have hcond : BeforeOffline topic s .putBusy ↔ ((writes topic request).isSome → ¬ Over topic s) := by
    simp [BeforeOffline, hb]
  rw [hcond]
  refine ⟨?_, ?_, ?_, ?_, ?_, ?_⟩
  · rw [hstopped, ht]
    exact h.todo
  · rw [hp, ht]
    exact h.done
  · rw [hb']
    exact fun r hr => hbusy r (List.mem_cons_of_mem _ hr)
  · rw [hover]
    intro hn
    exact ⟨h.before hn, fun _ => hn⟩
  · intro hshared
    refine ⟨h.shared hshared, ?_⟩
    intro hw
    obtain ⟨said, hsaid⟩ := Option.isSome_iff_exists.1 hw
    exact absurd hshared (hbusy request List.mem_cons_self said hsaid).2
  · rw [hover]
    intro ho
    cases hw : writes topic request with
    | none =>
      rw [hf, hw, Option.none_or, ← h.decided ho]
      simp
    | some said =>
      have hsaid := (hbusy request List.mem_cons_self said hw).1
      rw [hf, hw, Option.some_or]
      simpa [ho] using hsaid

/-- The last will says `offline` as well. -/
theorem Ending.loss (h : Ending config topic met s) : Ending config topic (met ∧ True)
    ({ s with connected := false, subscriptions := [] }.handle (lastWill config)) := by
  by_cases htopic : topic = availabilityTopic config
  · have hmet := h.shared htopic
    refine h.quiet (handle_phase _ _) (handle_todo _ _) (handle_busy _ _) fun hiff => iff_of_true hmet ?_
    have hoffline := hiff.1 hmet
    rw [lookup_final] at hoffline ⊢
    have hwill : writes topic (lastWill config) = some (.text "offline") := by simp [writes, lastWill, htopic]
    rw [handle_queue, handle_retained, lookup_keep, hwill, Option.some_or]
    -- the queue decides, or else the last will does
    cases hlast : (s.queue.filterMap (writes topic)).getLast? with
    | none => rfl
    | some said =>
      rw [hlast] at hoffline
      exact hoffline
  · refine h.same (handle_phase _ _) (handle_todo _ _) (handle_busy _ _) ?_
    rw [lookup_final, lookup_final, handle_queue, handle_retained, lookup_keep]
    simp [writes, lastWill, Ne.symm htopic]

theorem Ending.step (h : Ending config topic met s) (htopic : topic ∈ listedTopics config io)
    (hs : Mqtt.step config io s l = some s') : Ending config topic (met ∧ BeforeOffline topic s l) s' := by
  cases Step.of_step hs with
  | requestShutdown | connect => exact h.same rfl rfl rfl rfl
  | shutdown hp ht hr =>
    have hn : ¬ Stopped s := by rcases hp with hp | hp <;> simp [Stopped, hp]
    have hmet := h.before fun ho => hn ho.1
    have hmem := offline_mem htopic
    refine ⟨fun _ r hr => of_mem_publishEntitiesAvailabilityOffline hr, nofun, h.busy, fun _ => ⟨hmet, trivial⟩,
      fun _ => ⟨hmet, trivial⟩, fun ho => absurd hmem ho.2⟩
  | state ioData hp ht => exact h.serving (by simp [Stopped, hp]) (by simp [Stopped, hp]) rfl
  | recvFails hp ht => exact h.serving (by simp [Stopped, hp]) (by simp [Stopped]) rfl
  | put request rest ht hroom =>
    by_cases hstopped : Stopped s
    · refine h.put hstopped ht rfl rfl rfl ?_
      apply final_append <;> rfl
    · refine h.serving hstopped (fun hs' => hstopped ?_) rfl
      cases rest with
      | nil => exact stopped_of_next hs'
      | cons => exact hs'
  | putBusy request rest hb hroom =>
    refine h.putBusy hb rfl rfl rfl ?_
    apply final_append <;> rfl
  | status payload hc =>
    change Ending config topic (met ∧ True) _
    rw [and_true]
    exact ⟨h.todo, h.done, fun r hr said hw => of_mem_reaction hr hw, h.before, h.shared, h.decided⟩
  | loss hc => exact h.loss
  | deliver request rest hq hc =>
    exact h.same (handle_phase _ _) (handle_todo _ _) (handle_busy _ _) (by rw [final_deliver hq])

/-! ## Runs -/

theorem run_ending {retained : HMap String Payload} {ls : List Label} (htopic : topic ∈ listedTopics config io)
    (h : run (step config io) (init config io retained) ls = some s) :
    Ending config topic (Meets (step config io) (BeforeOffline topic) (init config io retained) ls) s := by
  have hn : ¬ Stopped (init config io retained) := by simp [Stopped, init]
  have hstart : Ending config topic True (init config io retained) :=
    ⟨fun hs => absurd hs hn, nofun, fun _ hr => absurd hr List.not_mem_nil, fun _ => trivial, fun _ => trivial,
      fun ho => absurd ho.1 hn⟩
  have := run_meets (step config io) (fun _ _ _ _ hi hs => hi.step htopic hs) hstart h
  rwa [true_and] at this

/-- **After a shutdown every entity is offline** exactly if the event loop writes to no availability topic
after `start` has put its `offline` there. -/
theorem offline_iff {retained : HMap String Payload} {ls : List Label}
    (h : run (step config io) (init config io retained) ls = some s) (hd : s.phase = .done) :
    (∀ topic ∈ listedTopics config io, s.final.lookup topic = some (.text "offline")) ↔
      ∀ topic ∈ listedTopics config io,
        Meets (step config io) (BeforeOffline topic) (init config io retained) ls := by
  refine forall₂_congr fun topic htopic => ?_
  have hi := run_ending htopic h
  have hover : Over topic s := ⟨.inr hd, by simp [hi.done hd]⟩
  exact (hi.decided hover).symm

end

/-- `start` is told to stop, and does. -/
def stops : List Label := [.requestShutdown, .shutdown, .put, .put]

/-- Home Assistant comes online, and gets its answer. -/
def greets : List Label := [.status "online", .putBusy, .putBusy]

theorem offline_lampHouse :
    ∃ s, run (step calaos lampHouse) (init calaos lampHouse ∅) (comesOnline ++ greets ++ stops) = some s ∧
      ∀ topic ∈ listedTopics calaos lampHouse,
        Meets (step calaos lampHouse) (BeforeOffline topic) (init calaos lampHouse ∅)
          (comesOnline ++ greets ++ stops) := by
  obtain ⟨s, hr, hd, hclient, hlamp⟩ :
      ∃ s, run (step calaos lampHouse) (init calaos lampHouse ∅) (comesOnline ++ greets ++ stops) = some s ∧
        s.phase = .done ∧ s.final.lookup "calaos/availability" = some (.text "offline") ∧
        s.final.lookup "calaos/availability/lamp" = some (.text "offline") := ⟨_, rfl, rfl, rfl, rfl⟩
  refine ⟨s, hr, (offline_iff hr hd).1 ?_⟩
  intro topic htopic
  have hlisted : listedTopics calaos lampHouse = ["calaos/availability", "calaos/availability/lamp"] := by decide
  rw [hlisted] at htopic
  rcases List.mem_pair.1 htopic with rfl | rfl
  · exact hclient
  · exact hlamp

/-- In the grace period it gets the answer too: the house is gone, and its lamp is said to be there. -/
theorem online_lampHouse :
    ∃ s, run (step calaos lampHouse) (init calaos lampHouse ∅) (comesOnline ++ stops ++ greets) = some s ∧
      s.phase = .done ∧ "calaos/availability/lamp" ∈ listedTopics calaos lampHouse ∧
      s.final.lookup "calaos/availability/lamp" = some (.text "online") := by
  refine ⟨_, rfl, rfl, ?_, rfl⟩
  decide

end Calaos.Mqtt
