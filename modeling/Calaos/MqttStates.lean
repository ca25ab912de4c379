import Calaos.Presence
/-!
# The published states

`Sys` is the client with what its receiver still gives it (`outcomes`) and what the loop of `start` has put into
the queue (`published`). The arm of the `select!` takes `Ok(state)` alone, and an arm that does not match is
out for the rest of this `select!`. So the first lag leaves only the shutdown: what `published` and
`todo` tell is the states before it (`Told`).
-/
namespace Calaos.Mqtt

open Runs

/-- What `rx_state.recv()` gives. -/
inductive Outcome where
  | received (ioData : IOData)
  | lagged

/-- The states of the outcomes. -/
def received (outcomes : List Outcome) : List IOData :=
  outcomes.filterMap fun
    | .received ioData => some ioData
    | .lagged => none

/-- The client, what its receiver still gives, and what it has published of that. -/
structure Sys where
  client : St
  outcomes : List Outcome
  published : List Request

/-- What is left of the outcomes. -/
def take (outcomes : List Outcome) : Label → Option (List Outcome)
  | .state ioData =>
    match outcomes with
    | .received ioData' :: rest => if ioData' = ioData then some rest else none
    | _ => none
  | .recvFails =>
    match outcomes with
    | .lagged :: rest => some rest
    | _ => none
  | _ => some outcomes

/-- What the loop of `start` publishes. -/
def publishes (s : St) : Label → List Request
  | .put => if s.phase = .serving then s.todo.take 1 else []
  | _ => []

section
variable (config : MqttConfig) (io : IoConfig)

def Sys.step (s : Sys) (l : Label) : Option Sys :=
  (take s.outcomes l).bind fun outcomes =>
    (Mqtt.step config io s.client l).map fun client => ⟨client, outcomes, s.published ++ publishes s.client l⟩

def Sys.init (retained : HMap String Payload) (outcomes : List Outcome) : Sys :=
  ⟨Mqtt.init config io retained, outcomes, []⟩

end

/-! ## One step -/

section
variable {config : MqttConfig} {io : IoConfig} {outcomes : List Outcome} {s s' : Sys} {l : Label}

variable (config outcomes s) in
/-- What was published until now, of all the outcomes there are. -/
inductive Told : Prop where
  | setup (hp : s.client.phase = .setup) (ho : outcomes = s.outcomes) (hpub : s.published = [])
  | serving (hp : s.client.phase = .serving) (taken : List Outcome) (ho : outcomes = taken ++ s.outcomes)
    (hlag : .lagged ∉ taken) (hpub : s.published ++ s.client.todo = (received taken).map (publishState config))
  | deaf (hp : s.client.phase = .deaf) (ht : s.client.todo = []) (before : List Outcome)
    (ho : outcomes = before ++ .lagged :: s.outcomes) (hlag : .lagged ∉ before)
    (hpub : s.published = (received before).map (publishState config))
  | ended (hp : s.client.phase = .stopping ∨ s.client.phase = .done)

theorem received_append (first rest : List Outcome) : received (first ++ rest) = received first ++ received rest :=
  List.filterMap_append

theorem take_state {left : List Outcome} {ioData : IOData} (h : take outcomes (.state ioData) = some left) :
    outcomes = .received ioData :: left := by
  simp only [take] at h
  split at h
  · rw [Option.ite_none_right_eq_some] at h
    obtain ⟨rfl, hrest⟩ := h
    cases hrest
    rfl
  · cases h

theorem take_recvFails {left : List Outcome} (h : take outcomes .recvFails = some left) :
    outcomes = .lagged :: left := by
  simp only [take] at h
  split at h <;> cases h
  rfl

/-- `start` did nothing. -/
theorem Told.same (h : Told config outcomes s) (hp : s'.client.phase = s.client.phase)
    (ht : s'.client.todo = s.client.todo) (ho : s'.outcomes = s.outcomes) (hpub : s'.published = s.published) :
    Told config outcomes s' := by
  cases h with
  | setup hphase hos hnone => exact .setup (hp.trans hphase) (by rw [ho, hos]) (by rw [hpub, hnone])
  | serving hphase taken hos hlag hall =>
    exact .serving (hp.trans hphase) taken (by rw [ho, hos]) hlag (by rw [hpub, ht, hall])
  | deaf hphase htodo before hos hlag hall =>
    exact .deaf (hp.trans hphase) (ht.trans htodo) before (by rw [ho, hos]) hlag (by rw [hpub, hall])
  | ended hphase => exact .ended (hp ▸ hphase)

/-- `start` puts its next request into the queue. -/
theorem Told.put {request : Request} {rest queue : List Request} (h : Told config outcomes s)
    (ht : s.client.todo = request :: rest) :
    Told config outcomes ⟨{ s.client with
      phase := if rest.isEmpty then s.client.phase.next else s.client.phase
      todo := rest
      queue := queue }, s.outcomes, s.published ++ publishes s.client .put⟩ := by
  cases h with
  | setup hp ho hpub =>
    have hnone : s.published ++ publishes s.client .put = [] := by simp [publishes, hp, hpub]
    cases rest with
    | nil => exact .serving (by rw [hp]; rfl) [] ho (by simp) (by rw [hnone]; rfl)
    | cons => exact .setup (by rw [← hp]; rfl) ho hnone
  | serving hp taken ho hlag hpub =>
    refine .serving ?_ taken ho hlag ?_
    · rw [hp]
      cases rest <;> rfl
    · rw [← hpub, ht]
      simp [publishes, hp, ht]
  | deaf hp htodo =>
    rw [htodo] at ht
    cases ht
  | ended hp =>
    refine .ended ?_
    rcases hp with hp | hp <;> rw [hp] <;> cases rest
    · exact .inr rfl
    · exact .inl rfl
    · exact .inr rfl
    · exact .inr rfl

theorem Told.step (h : Told config outcomes s) (hs : Sys.step config io s l = some s') :
    Told config outcomes s' := by
  obtain ⟨left, htake, hs⟩ := Option.bind_eq_some_iff.1 hs
  obtain ⟨client, hclient, rfl⟩ := Option.map_eq_some_iff.1 hs
  cases Step.of_step hclient with
  | requestShutdown | putBusy | status | connect =>
    cases htake
    exact h.same rfl rfl rfl (List.append_nil _)
  | loss | deliver =>
    cases htake
    exact h.same (handle_phase _ _) (handle_todo _ _) rfl (List.append_nil _)
  | shutdown => exact .ended (.inl rfl)
  | put request rest ht =>
    cases htake
    exact h.put ht
  | state ioData hp ht =>
    have hfirst := take_state htake
    cases h with
    | serving _ taken ho hlag hpub =>
      rw [ht, List.append_nil] at hpub
      refine .serving hp (taken ++ [.received ioData]) (by simp [ho, hfirst]) (by simp [hlag]) ?_
      rw [received_append, List.map_append, ← hpub]
      simp [publishes, received]
    | setup hphase | deaf hphase => simp [hp] at hphase
    | ended hphase => simp [hp] at hphase
  | recvFails hp ht =>
    have hfirst := take_recvFails htake
    cases h with
    | serving _ taken ho hlag hpub =>
      rw [ht, List.append_nil] at hpub
      exact .deaf rfl ht taken (by rw [ho, hfirst]) hlag (by rw [← hpub]; exact List.append_nil _)
    | setup hphase | deaf hphase => simp [hp] at hphase
    | ended hphase => simp [hp] at hphase

/-! ## Runs -/

theorem run_told {retained : HMap String Payload} {ls : List Label}
    (h : run (Sys.step config io) (Sys.init config io retained outcomes) ls = some s) : Told config outcomes s :=
  run_invariant (Sys.step config io) (fun _ _ _ hi hs => hi.step hs) (.setup rfl rfl rfl) h

/-- `start` has published what it has received, and only a shutdown can wake it. -/
structure Rested (s : Sys) : Prop where
  todo : s.client.todo = []
  waits : s.client.phase = .serving ∧ s.outcomes = [] ∨ s.client.phase = .deaf

/-- The first lag is the one that counts. -/
theorem after_lag {first rest : List Outcome} (hlag : .lagged ∉ first) : received rest = [] ↔
    ∀ before after, first ++ .lagged :: rest = before ++ .lagged :: after → received after = [] := by
  constructor
  · rintro hnone before after hsplit
    rcases List.append_eq_append_iff.1 hsplit with ⟨middle, _, hmiddle⟩ | ⟨middle, hfirst, hmiddle⟩
    · cases middle with
      | nil =>
        cases hmiddle
        exact hnone
      | cons outcome middle =>
        have hrest : rest = middle ++ .lagged :: after := (List.cons.inj hmiddle).2
        rw [hrest, received_append] at hnone
        exact (List.append_eq_nil_iff.1 hnone).2
    · cases middle with
      | nil =>
        cases hmiddle
        exact hnone
      | cons outcome middle =>
        obtain ⟨rfl, _⟩ := List.cons.inj hmiddle
        exact absurd (by simp [hfirst]) hlag
  · intro hlast
    exact hlast first rest rfl

theorem published_iff (h : Told config outcomes s) (hr : Rested s) :
    s.published = (received outcomes).map (publishState config) ↔
      ∀ before after, outcomes = before ++ .lagged :: after → received after = [] := by
  cases h with
  | setup hp => rcases hr.waits with ⟨hq, _⟩ | hq <;> simp [hp] at hq
  | ended hp => rcases hr.waits with ⟨hq, _⟩ | hq <;> simp [hq] at hp
  | serving hp taken ho hlag hpub =>
    have hempty : s.outcomes = [] := by
      rcases hr.waits with ⟨_, he⟩ | hq
      · exact he
      · simp [hp] at hq
    rw [hr.todo, List.append_nil] at hpub
    rw [hempty, List.append_nil] at ho
    subst ho
    refine iff_of_true hpub ?_
    rintro before after rfl
    simp at hlag
  | deaf hp ht first ho hlag hpub =>
    have hall : received outcomes = received first ++ received s.outcomes := by
      rw [ho, received_append]
      rfl
    rw [hpub, hall, List.map_append, List.self_eq_append_right, List.map_eq_nil_iff, ho, after_lag hlag]

/-! ## Every sequence of outcomes -/

/-- Steps that do not touch the receiver are steps of the client. -/
theorem run_client {t : St} : ∀ {ls : List Label} {s : Sys}, (∀ l ∈ ls, ∀ outcomes, take outcomes l = some outcomes) →
    run (Mqtt.step config io) s.client ls = some t →
    ∃ u, run (Sys.step config io) s ls = some u ∧ u.client = t ∧ u.outcomes = s.outcomes
  | [], s, _, h => ⟨s, rfl, Option.some.inj h, rfl⟩
  | l :: ls, s, hl, h => by
    obtain ⟨client, hs, hr⟩ := (run_cons _).1 h
    have hstep : Sys.step config io s l = some ⟨client, s.outcomes, s.published ++ publishes s.client l⟩ := by
      rw [Sys.step, hl l List.mem_cons_self, Option.bind_some, hs, Option.map_some]
    obtain ⟨u, hu, hclient, ho⟩ := run_client (s := ⟨client, s.outcomes, s.published ++ publishes s.client l⟩)
      (fun l' hl' => hl l' (List.mem_cons_of_mem _ hl')) hr
    exact ⟨u, (run_cons _).2 ⟨_, hstep, hu⟩, hclient, ho⟩

/-- `start` takes all the outcomes it can. -/
theorem serves_all : ∀ {outcomes : List Outcome} {s : Sys}, s.outcomes = outcomes → Idle s.client →
    s.client.phase = .serving → s.client.todo = [] →
    ∃ ls t, run (Sys.step config io) s ls = some t ∧ Rested t
  | [], s, ho, _, hp, ht => ⟨[], s, rfl, ht, .inl ⟨hp, ho⟩⟩
  | .lagged :: rest, s, ho, _, hp, ht =>
    ⟨[.recvFails], ⟨{ s.client with phase := .deaf }, rest, s.published ++ []⟩,
      by simp [run, Sys.step, take, step, ho, hp, ht, publishes], ht, .inr rfl⟩
  | .received ioData :: rest, s, ho, hi, hp, ht => by
    let s₁ : Sys := ⟨{ s.client with todo := [publishState config ioData] }, rest, s.published ++ []⟩
    have hfirst : Sys.step config io s (.state ioData) = some s₁ := by
      simp [Sys.step, take, step, ho, hp, ht, publishes, s₁]
    have hi₁ : Idle s₁.client := ⟨hi.connected, hi.busy, hi.queue⟩
    obtain ⟨client, hput, hidle, htodo, hphase, _⟩ := hi₁.put config io rfl
    obtain ⟨s₂, hr₂, hclient, ho₂⟩ := run_client (by simp [take]) hput
    subst hclient
    have hserving : s₂.client.phase = .serving := by
      rw [hphase]
      exact congrArg Phase.next hp
    obtain ⟨ls, t, hr, hrest⟩ := serves_all ho₂ hidle hserving htodo
    refine ⟨.state ioData :: ([.put, .deliver] ++ ls), t, ?_, hrest⟩
    rw [run_cons]
    exact ⟨s₁, hfirst, by rw [run_append, hr₂, Option.bind_some, hr]⟩

theorem rest_reached (retained : HMap String Payload) (outcomes : List Outcome) :
    ∃ ls s, run (Sys.step config io) (Sys.init config io retained outcomes) ls = some s ∧ Rested s := by
  obtain ⟨client, honline, hidle, hp, ht, _⟩ := online_reached config io retained
  have hlabels : ∀ l ∈ comingOnline config io, ∀ left, take left l = some left := by
    intro l hl left
    rcases List.mem_cons.1 hl with rfl | hl
    · rfl
    · obtain ⟨_, _, hl⟩ := List.mem_flatMap.1 hl
      rcases List.mem_pair.1 hl with rfl | rfl <;> rfl
  obtain ⟨s, hr, rfl, ho⟩ := run_client (s := Sys.init config io retained outcomes) hlabels honline
  obtain ⟨ls, t, ht, hrest⟩ := serves_all ho hidle hp ht
  exact ⟨comingOnline config io ++ ls, t, by rw [run_append, hr, Option.bind_some, ht], hrest⟩

variable (config io) in
/-- **Every received state is published**, in order and once, exactly if none is received after a lag. -/
theorem states_published (retained : HMap String Payload) (outcomes : List Outcome) :
    (∃ ls s, run (Sys.step config io) (Sys.init config io retained outcomes) ls = some s ∧ Rested s) ∧
      ∀ ls s, run (Sys.step config io) (Sys.init config io retained outcomes) ls = some s → Rested s →
        (s.published = (received outcomes).map (publishState config) ↔
          ∀ before after, outcomes = before ++ .lagged :: after → received after = []) := by
  refine ⟨rest_reached retained outcomes, ?_⟩
  intro ls s h hr
  exact published_iff (run_told h) hr

end

/-- One state before a lag, and no other outcome. -/
theorem states_published_lampHouse : ∃ ls s,
    run (Sys.step calaos lampHouse) (Sys.init calaos lampHouse ∅ [.received ⟨"lamp", .bool true⟩, .lagged]) ls = some s ∧
      s.published = [publishState calaos ⟨"lamp", .bool true⟩] := by
  obtain ⟨⟨ls, s, h, hr⟩, hiff⟩ := states_published calaos lampHouse ∅ [.received ⟨"lamp", .bool true⟩, .lagged]
  refine ⟨ls, s, h, (hiff ls s h hr).2 ?_⟩
  intro before after hsplit
  rcases before with _ | ⟨_, _ | ⟨_, before⟩⟩ <;> simp at hsplit
  rw [hsplit.2]
  rfl

/-- The lamp goes on, the receiver lags, and the lamp goes off. -/
def lagBetween : List Outcome :=
  [.received ⟨"lamp", .bool true⟩, .lagged, .received ⟨"lamp", .bool false⟩]

/-- That the lamp is off again is not published. -/
theorem states_lost : ∃ ls s, run (Sys.step calaos lampHouse) (Sys.init calaos lampHouse ∅ lagBetween) ls = some s ∧
    Rested s ∧ s.published = [publishState calaos ⟨"lamp", .bool true⟩] ∧
      s.published ≠ (received lagBetween).map (publishState calaos) := by
  refine ⟨comesOnline ++ [.state ⟨"lamp", .bool true⟩, .put, .recvFails], _, rfl, ⟨rfl, .inr rfl⟩, rfl, ?_⟩
  intro h
  have := congrArg List.length h
  simp [received, lagBetween] at this
  exact absurd this (by decide)

end Calaos.Mqtt
