import Calaos.Presence
/-!
# The event loop and its own queue

The task of the event loop puts into the queue that only itself empties. So it gets through a message
only if there is room for all that it puts, at the start (`status`) and as long as `start` puts too:
`LeavesRoom`. What is in the queue and what the event loop has still to put there never gets less while
it is busy, and this is why a message that is too long is its last (`busy_forever`).

A message costs two requests for each entity (`length_reaction`), so a house with more than fifty of them
does not survive the first `online`.
-/
namespace Calaos.Mqtt

open Runs

section
variable {config : MqttConfig} {io : IoConfig}

/-! ## How many requests -/

/-- The number of inputs and outputs. -/
def entities (io : IoConfig) : Nat :=
  (io.home.rooms.map fun room => room.inputs.length + room.outputs.length).sum

theorem length_publishEntities (payload : String) : (publishEntities config io payload).length = entities io := by
  simp [publishEntities, entities, List.length_flatMap]

theorem length_publishDiscoveryWith : (publishDiscoveryWith config io).length = entities io := by
  simp [publishDiscoveryWith, entities, List.length_flatMap]

variable (config io) in
theorem length_reaction (payload : String) :
    (reaction config io payload).length = if payload = "online" then 2 * entities io else 0 := by
  unfold reaction
  split
  · rw [List.length_append, length_publishDiscoveryWith, publishEntitiesAvailabilityOnline, length_publishEntities]
    omega
  · rfl

/-! ## One step -/

/-- The event loop waits for the queue that it should empty. -/
def Waits (s : St) : Prop := s.busy ≠ [] ∧ capacity ≤ s.queue.length

variable (config io) in
/-- The event loop gets through its message by its own steps, and polls again. -/
def Finishes (s : St) : Prop :=
  ∃ t, run (step config io) s (List.replicate s.busy.length .putBusy) = some t ∧ t.busy = []

variable (io) in
/-- The step leaves room for all that the event loop has to put into the queue. -/
def LeavesRoom (s : St) : Label → Prop
  | .status payload => payload = "online" → s.queue.length + 2 * entities io ≤ capacity
  | .put => s.busy ≠ [] → s.queue.length + s.busy.length < capacity
  | _ => True

/-- There is room for all that the event loop has to put into the queue. -/
def HasRoom (s : St) : Prop := s.busy ≠ [] → s.queue.length + s.busy.length ≤ capacity

/-- The queue, and whether there is room: as long as every step left some. -/
structure Occupancy (met : Prop) (s : St) : Prop where
  bound : s.queue.length ≤ capacity
  room : met ↔ HasRoom s

variable {met : Prop} {s s' : St} {l : Label}

/-- Neither of the two has changed. -/
theorem Occupancy.same (hi : Occupancy met s) (hb : s'.busy = s.busy) (hq : s'.queue = s.queue) :
    Occupancy (met ∧ True) s' := by
  refine ⟨by rw [hq]; exact hi.bound, ?_⟩
  rw [and_true, HasRoom, hb, hq]
  exact hi.room

/-- `start` takes a place in the queue. -/
theorem Occupancy.put (hi : Occupancy met s) (hfree : s.queue.length < capacity) (hb : s'.busy = s.busy)
    (hq : s'.queue.length = s.queue.length + 1) : Occupancy (met ∧ LeavesRoom io s .put) s' := by
  refine ⟨by omega, ?_⟩
  rw [hi.room]
  simp only [HasRoom, LeavesRoom, hb, hq]
  constructor
  · rintro ⟨_, hafter⟩ hne
    have := hafter hne
    omega
  · intro hafter
    refine ⟨fun hne => ?_, fun hne => ?_⟩ <;> have := hafter hne <;> omega

/-- The event loop takes a place that it had left. -/
theorem Occupancy.putBusy {request : Request} {rest : List Request} (hi : Occupancy met s)
    (hfree : s.queue.length < capacity) (hb : s.busy = request :: rest) (hb' : s'.busy = rest)
    (hq : s'.queue.length = s.queue.length + 1) : Occupancy (met ∧ True) s' := by
  refine ⟨by omega, ?_⟩
  rw [and_true, hi.room]
  simp only [HasRoom, hb, hb', hq, List.length_cons]
  constructor
  · intro h _
    have := h (by simp)
    omega
  · intro h _
    by_cases hrest : rest = []
    · subst hrest
      simp only [List.length_nil]
      omega
    · have := h hrest
      omega

variable (config io) in
/-- The event loop takes a message. -/
theorem Occupancy.status (hi : Occupancy met s) (hidle : s.busy = []) (payload : String) :
    Occupancy (met ∧ LeavesRoom io s (.status payload)) { s with busy := reaction config io payload } := by
  refine ⟨hi.bound, ?_⟩
  have hmet : met := hi.room.2 fun hne => absurd hidle hne
  have hbound := hi.bound
  have hlength := length_reaction config io payload
  simp only [hmet, true_and, HasRoom, LeavesRoom]
  by_cases hp : payload = "online"
  · rw [if_pos hp] at hlength
    rw [← List.length_pos_iff, hlength]
    constructor
    · intro h _
      exact h hp
    · intro h _
      by_cases hempty : 0 < 2 * entities io
      · exact h hempty
      · omega
  · rw [if_neg hp] at hlength
    have hnone := List.length_eq_zero_iff.1 hlength
    exact iff_of_true (fun h => absurd h hp) fun h => absurd hnone h

/-- The broker gets a request: only an idle event loop polls. -/
theorem Occupancy.deliver (hi : Occupancy met s) (hidle : s.busy = []) (hb : s'.busy = [])
    (hq : s'.queue.length ≤ s.queue.length) : Occupancy (met ∧ True) s' := by
  have hmet : met := hi.room.2 fun hne => absurd hidle hne
  exact ⟨hq.trans hi.bound, iff_of_true ⟨hmet, trivial⟩ fun hne => absurd hb hne⟩

theorem Occupancy.step (hi : Occupancy met s) (hs : Mqtt.step config io s l = some s') :
    Occupancy (met ∧ LeavesRoom io s l) s' := by
  cases Step.of_step hs with
  | requestShutdown | shutdown | state | recvFails | connect => exact hi.same rfl rfl
  | put request rest ht hfree => exact hi.put hfree rfl (by simp)
  | putBusy request rest hb hfree => exact hi.putBusy hfree hb rfl (by simp)
  | status payload hc => exact hi.status config io (List.isEmpty_iff.1 hc.2.1) payload
  | loss hc => exact hi.same (handle_busy _ _) (handle_queue _ _)
  | deliver request rest hq hc =>
    have hidle := List.isEmpty_iff.1 hc.2
    exact hi.deliver hidle (by simp [hidle]) (by simp [hq])

/-! ## Runs -/

theorem run_occupancy {retained : HMap String Payload} {ls : List Label}
    (h : run (step config io) (init config io retained) ls = some s) :
    Occupancy (Meets (step config io) (LeavesRoom io) (init config io retained) ls) s := by
  have hstart : Occupancy True (init config io retained) :=
    ⟨Nat.zero_le _, iff_of_true trivial fun hne => absurd rfl hne⟩
  have := run_meets (step config io) (fun _ _ _ _ hi hs => hi.step hs) hstart h
  rwa [true_and] at this

/-- Where there is no room, the event loop never polls again. -/
theorem busy_forever {ls : List Label} (hbound : s.queue.length ≤ capacity) (hn : ¬ HasRoom s)
    (h : run (step config io) s ls = some s') : s'.busy ≠ [] := by
  have hnow : Occupancy False s := ⟨hbound, iff_of_false id hn⟩
  have hthen := run_meets (C := LeavesRoom io) (step config io) (fun _ _ _ _ hi hs => hi.step hs) hnow h
  intro hidle
  exact (hthen.room.2 fun hne => absurd hidle hne).1

/-- The event loop puts some of its requests while there is room. -/
theorem run_putBusy : ∀ {first rest : List Request} {s : St}, s.busy = first ++ rest →
    s.queue.length + first.length ≤ capacity →
    run (step config io) s (List.replicate first.length .putBusy) =
      some { s with busy := rest, queue := s.queue ++ first }
  | [], rest, s, hb, _ => by
    subst hb
    simp [run]
  | request :: first, rest, s, hb, hroom => by
    rw [List.length_cons] at hroom
    have hstep : step config io s .putBusy =
        some { s with busy := first ++ rest, queue := s.queue ++ [request] } := by
      have hfree : s.queue.length < capacity := by omega
      simp [step, hb, hfree]
    rw [List.length_cons, List.replicate_succ, run, hstep, Option.bind_some]
    rw [run_putBusy (s := { s with busy := first ++ rest, queue := s.queue ++ [request] }) rfl
      (by simp only [List.length_append, List.length_singleton]; omega)]
    simp

theorem finishes_iff (hbound : s.queue.length ≤ capacity) : Finishes config io s ↔ HasRoom s := by
  constructor
  · rintro ⟨t, hr, hidle⟩
    by_contra hn
    exact busy_forever hbound hn hr hidle
  · intro hroom
    by_cases hb : s.busy = []
    · exact ⟨s, by simp [hb, run], hb⟩
    · exact ⟨_, run_putBusy (List.append_nil _).symm (hroom hb), rfl⟩

theorem HasRoom.not_waits (h : HasRoom s) : ¬ Waits s := by
  rintro ⟨hb, hfull⟩
  have := h hb
  have := List.length_pos_iff.2 hb
  omega

/-- **The event loop gets through every message** exactly if every step leaves room for what it has to put
into the queue. Otherwise it never polls again. -/
theorem finishes_iff_leavesRoom {retained : HMap String Payload} {ls : List Label}
    (h : run (step config io) (init config io retained) ls = some s) :
    (Finishes config io s ↔ Meets (step config io) (LeavesRoom io) (init config io retained) ls) ∧
      (Meets (step config io) (LeavesRoom io) (init config io retained) ls → ¬ Waits s) ∧
      (¬ Meets (step config io) (LeavesRoom io) (init config io retained) ls →
        ∀ ls' t, run (step config io) s ls' = some t → t.busy ≠ []) := by
  obtain ⟨hbound, hroom⟩ := run_occupancy h
  refine ⟨(finishes_iff hbound).trans hroom.symm, fun hmet => (hroom.1 hmet).not_waits, ?_⟩
  intro hn ls' t ht
  exact busy_forever hbound (fun hr => hn (hroom.2 hr)) ht

/-! ## A message that is too long -/

/-- The event loop waits as soon as it has filled the queue. -/
theorem waits_of_not_hasRoom (hbound : s.queue.length ≤ capacity) (hn : ¬ HasRoom s) :
    ∃ t, run (step config io) s (List.replicate (capacity - s.queue.length) .putBusy) = some t ∧ Waits t := by
  simp only [HasRoom, not_forall, not_le] at hn
  obtain ⟨hb, hover⟩ := hn
  obtain ⟨first, rest, hsplit, hlength⟩ :
      ∃ first rest, s.busy = first ++ rest ∧ first.length = capacity - s.queue.length :=
    ⟨_, _, (List.take_append_drop _ s.busy).symm, List.length_take_of_le (by omega)⟩
  rw [hsplit, List.length_append] at hover
  have hr : run (step config io) s (List.replicate first.length .putBusy) = some { s with
      busy := rest
      queue := s.queue ++ first } := run_putBusy hsplit (by omega)
  rw [hlength] at hr
  refine ⟨_, hr, ?_, ?_⟩
  · have hrest : 0 < rest.length := by omega
    exact List.length_pos_iff.1 hrest
  · rw [List.length_append, hlength]
    omega

/-- A house and a queue that are too much together: the event loop waits for itself, for ever. -/
theorem waits_status (hbound : s.queue.length ≤ capacity) (hover : capacity < s.queue.length + 2 * entities io)
    (h : step config io s (.status "online") = some s') :
    ∃ t, run (step config io) s' (List.replicate (capacity - s.queue.length) .putBusy) = some t ∧ Waits t ∧
      ∀ ls u, run (step config io) t ls = some u → u.busy ≠ [] := by
  cases Step.of_step h with
  | status payload hc =>
    have hlength := length_reaction config io "online"
    rw [if_pos rfl] at hlength
    let s' : St := { s with busy := reaction config io "online" }
    have hn : ¬ HasRoom s' := by
      intro hroom
      simp only [HasRoom, s', ← List.length_pos_iff, hlength] at hroom
      have := hroom (by omega)
      omega
    obtain ⟨t, hr, hw⟩ := waits_of_not_hasRoom (s := s') hbound hn
    refine ⟨t, hr, hw, ?_⟩
    intro ls u hu
    have hall : run (step config io) s' (List.replicate (capacity - s.queue.length) .putBusy ++ ls) = some u := by
      rw [run_append, hr, Option.bind_some, hu]
    exact busy_forever (s := s') hbound hn hall

end

/-! ## A house with one lamp, and one with fifty-one -/

/-- The event loop has put one of its two requests. -/
theorem finishes_lampHouse :
    ∃ s, run (step calaos lampHouse) (init calaos lampHouse ∅) (comesOnline ++ [.status "online", .putBusy]) = some s ∧
      s.busy ≠ [] ∧ ¬ Waits s ∧
      Meets (step calaos lampHouse) (LeavesRoom lampHouse) (init calaos lampHouse ∅)
        (comesOnline ++ [.status "online", .putBusy]) := by
  obtain ⟨s, hr, hs, hf⟩ : ∃ s, run (step calaos lampHouse) (init calaos lampHouse ∅)
      (comesOnline ++ [.status "online", .putBusy]) = some s ∧ s.busy ≠ [] ∧ Finishes calaos lampHouse s :=
    ⟨_, rfl, nofun, _, rfl, rfl⟩
  obtain ⟨hiff, hwaits, _⟩ := finishes_iff_leavesRoom hr
  have hmet := hiff.1 hf
  exact ⟨s, hr, hs, hwaits hmet, hmet⟩

def largeHouse : IoConfig :=
  ⟨⟨[⟨"Hall", "hall", [], (List.range 51).map fun i =>
    ⟨"Lamp", toString i, "", .woDigital ⟨"wago", "502", 1⟩, "", true, true⟩, 0⟩]⟩⟩

theorem entities_largeHouse : entities largeHouse = 51 := by
  simp [entities, largeHouse]

/-- The setup gets through, but the first `online` is the last message that the event loop handles. -/
theorem waits_largeHouse :
    ∃ ls t, run (step calaos largeHouse) (init calaos largeHouse ∅)
        (comingOnline calaos largeHouse ++ .status "online" :: ls) = some t ∧ Waits t ∧
      ∀ ls' u, run (step calaos largeHouse) t ls' = some u → u.busy ≠ [] := by
  obtain ⟨s, hr, hi, _, _, hsub⟩ := online_reached calaos largeHouse ∅
  obtain ⟨s', hs⟩ : ∃ s', step calaos largeHouse s (.status "online") = some s' := by
    simp [step, hi.connected, hi.busy, hsub]
  have hover : capacity < s.queue.length + 2 * entities largeHouse := by
    rw [hi.queue, entities_largeHouse]
    decide
  obtain ⟨t, ht, hw, hever⟩ := waits_status (by simp [hi.queue]) hover hs
  refine ⟨List.replicate (capacity - s.queue.length) .putBusy, t, ?_, hw, hever⟩
  rw [run_append, hr, Option.bind_some, run_cons]
  exact ⟨s', hs, ht⟩

end Calaos.Mqtt
