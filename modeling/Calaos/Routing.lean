import Calaos.Decimal
import Calaos.OutputControllers
/-!
# Every command reaches its controller, once and in order

The abstract view of `run_output_controllers` has no maps: an output id has one address (`addressee`), and a
controller gets the commands for the ids of its address. With pairwise different ids the four structures of
the code (the grouping, the context maps, `reverse_map` and the dispatch loop) amount to that, whatever the
iteration order was (`Routes`).
-/
namespace Calaos.OutputControllers

open Runs History

section
variable {Ip : Type} [DecidableEq Ip] (parse : Parsers Ip)

/-- The controller that the output with this id belongs to. -/
def addressee (io : IoConfig) (id : String) : Option (OutputControllerConfig Ip) :=
  (io.outputs.find? fun output => decide (output.id = id)).bind fun output => outputConfig parse output.kind

/-- A command that is not yet in its channel. -/
def Pc.pending : Pc → Nat → List IODataAction
  | .send channel ioData, n => if channel = n then [ioData] else []
  | _, _ => []

/-- Everything that was received for a channel: what its controller has taken, what waits in it, and what
`handle_rx` is sending. -/
def St.received (s : St) (channel : Nat) : List IODataAction :=
  s.taken channel ++ s.queues channel ++ s.pc.pending channel

/-- The outputs a controller handles are exactly those of its address. -/
def Handles (io : IoConfig) (config : OutputControllerConfig Ip) (map : OutputContextMap) : Prop :=
  ∀ id output, (∃ value, map.lookup id = some ⟨output, value⟩) ↔
    output ∈ io.outputs ∧ output.id = id ∧ outputConfig parse output.kind = some config

variable {parse} {io : IoConfig} {outputMap : OutputSharedContextMap} {configs : List (OutputControllerConfig Ip)}
  {reverseMap : HMap String Nat} {s s' : St} {past : List Label}

/-! ## Different ids -/

theorem find_of_nodup {outputs : List Output} (hn : (outputs.map (·.id)).Nodup) {output : Output}
    (ho : output ∈ outputs) : outputs.find? (fun o => decide (o.id = output.id)) = some output := by
  induction outputs with
  | nil => cases ho
  | cons first outputs ih =>
    rw [List.map_cons, List.nodup_cons] at hn
    rcases List.mem_cons.1 ho with rfl | ho
    · simp
    · have hne : first.id ≠ output.id := by
        intro he
        exact hn.1 (he ▸ List.mem_map_of_mem ho)
      rw [List.find?_cons_of_neg (by simpa using hne)]
      exact ih hn.2 ho

theorem lastOutput_of_nodup (hn : (io.outputs.map (·.id)).Nodup) {output : Output} (ho : output ∈ io.outputs) :
    lastOutput io output.id = some output := by
  unfold lastOutput
  obtain ⟨i, hi⟩ := List.mem_iff_getElem?.1 ho
  obtain ⟨j, last, _, hj, hid, hlast⟩ :=
    latest_of_getElem? (p := fun o : Output => decide (o.id = output.id)) hi (by simp)
  have hmem : last ∈ io.outputs := List.mem_of_getElem? hj
  have hfind := find_of_nodup hn hmem
  rw [of_decide_eq_true hid, find_of_nodup hn ho] at hfind
  rw [hlast, ← hfind]

theorem mem_idsOf {id : String} {config : OutputControllerConfig Ip} : id ∈ idsOf parse io.outputs config ↔
    ∃ output ∈ io.outputs, output.id = id ∧ outputConfig parse output.kind = some config := by
  unfold idsOf
  rw [List.mem_map]
  constructor
  · rintro ⟨output, ho, hid⟩
    rw [List.mem_filter, decide_eq_true_eq] at ho
    exact ⟨output, ho.1, hid, ho.2⟩
  · rintro ⟨output, ho, hid, hc⟩
    exact ⟨output, List.mem_filter.2 ⟨ho, decide_eq_true hc⟩, hid⟩

theorem addressee_eq_some (hn : (io.outputs.map (·.id)).Nodup) {id : String} {config : OutputControllerConfig Ip} :
    addressee parse io id = some config ↔ id ∈ idsOf parse io.outputs config := by
  rw [mem_idsOf, addressee, Option.bind_eq_some_iff]
  constructor
  · rintro ⟨output, hf, hc⟩
    have hid := List.find?_some hf
    rw [decide_eq_true_eq] at hid
    exact ⟨output, List.mem_of_find?_eq_some hf, hid, hc⟩
  · rintro ⟨output, ho, rfl, hc⟩
    exact ⟨output, find_of_nodup hn ho, hc⟩

/-- The map that `filter_output` makes for an address. -/
theorem handles_filterOutput (hn : (io.outputs.map (·.id)).Nodup) (ho : OutputsOf io outputMap)
    (config : OutputControllerConfig Ip) :
    Handles parse io config (filterOutput outputMap (idsOf parse io.outputs config)) := by
  intro id output
  rw [lookup_filterOutput]
  have hfound : (outputMap.lookup id).map (·.output) = lastOutput io id := by
    rw [ho, lookup_makeOutputContextMap]
  constructor
  · rintro ⟨value, hv⟩
    split at hv
    · rename_i hid
      obtain ⟨output', ho', rfl, hc⟩ := mem_idsOf.1 hid
      obtain ⟨context, hl, he⟩ := Option.map_eq_some_iff.1 hv
      rw [hl, lastOutput_of_nodup hn ho', Option.map_some, Option.some.injEq] at hfound
      cases he
      rw [hfound]
      exact ⟨ho', rfl, hc⟩
    · cases hv
  · rintro ⟨hmem, rfl, hc⟩
    rw [if_pos (mem_idsOf.2 ⟨output, hmem, rfl, hc⟩)]
    rw [lastOutput_of_nodup hn hmem] at hfound
    obtain ⟨context, hl, rfl⟩ := Option.map_eq_some_iff.1 hfound
    exact ⟨context.value, by rw [hl]; rfl⟩

variable (outputMap) in
/-- `reverse_map` leads from an id to the channel of its address. -/
theorem lookup_reverseMap (hn : (io.outputs.map (·.id)).Nodup)
    (h : HMap.Enumerates configs (makeOutputControllerMap parse io)) (id : String) :
    (∀ (channel : Nat), (launch parse io outputMap configs).reverseMap.lookup id = some channel →
      ∃ config, configs[channel]? = some config ∧ addressee parse io id = some config) ∧
    ((launch parse io outputMap configs).reverseMap.lookup id = none → addressee parse io id = none) := by
  obtain ⟨hsome, hnone⟩ := (launch_spec outputMap h).2 id
  constructor
  · intro channel hc
    obtain ⟨config, hget, hid⟩ := hsome channel hc
    exact ⟨config, hget, (addressee_eq_some hn).2 hid⟩
  · intro hl
    cases ha : addressee parse io id with
    | none => rfl
    | some config =>
      have hid := (addressee_eq_some hn).1 ha
      have hconfig : config ∈ configs :=
        (h.2 config).2 (mem_makeOutputControllerMap.2 (List.ne_nil_of_mem hid))
      exact absurd hid (hnone hl config hconfig)

/-! ## Dispatch -/

/-- Only a controller takes from its channel. -/
theorem step_taken {l : Label} (hs : step reverseMap s l = some s') (hl : ∀ n, l ≠ .take n) : s'.taken = s.taken := by
  cases Step.of_step hs with
  | take channel ioData rest hq => exact absurd rfl (hl channel)
  | ended | dispatched | unknown | sent | sendFails => rfl

/-- A command is sent to the channel its id leads to. -/
theorem pending_channel {ls : List Label} (hr : run (step reverseMap) init ls = some s) {n : Nat} {ioData : IODataAction}
    (hp : s.pc = .send n ioData) : reverseMap.lookup ioData.id = some n := by
  have key := run_invariant (step reverseMap)
    (I := fun t => ∀ n ioData, t.pc = .send n ioData → reverseMap.lookup ioData.id = some n) ?_ (by simp [init]) hr
  · exact key n ioData hp
  · intro t l t' ih hs m d hp
    cases Step.of_step hs with
    | dispatched ioData channel _ hc =>
      cases hp
      exact hc
    | unknown | take => exact ih m d hp
    | ended | sent | sendFails => cases hp

/-- What one step adds to what was received for a channel. -/
theorem received_step {l : Label} (hs : step reverseMap s l = some s') (hl : l ≠ .sendFails) (n : Nat) :
    s'.received n = s.received n ++
      (commands [l]).filter fun ioData => decide (reverseMap.lookup ioData.id = some n) := by
  cases Step.of_step hs with
  | ended hp => simp [St.received, Pc.pending, hp, commands]
  | unknown ioData hp hc => simp [commands, hc]
  | sendFails channel ioData hp => exact absurd rfl hl
  | dispatched ioData channel hp hc =>
    simp only [St.received, hp, Pc.pending, List.append_nil]
    by_cases hn : channel = n
    · subst hn
      simp [commands, hc]
    · simp [commands, hc, hn]
  | sent channel ioData hp hroom =>
    simp only [St.received, hp, Pc.pending, List.append_nil]
    by_cases hn : n = channel
    · subst hn
      simp [commands]
    · rw [Function.update_of_ne hn, if_neg (Ne.symm hn)]
      simp [commands]
  | take channel ioData rest hq =>
    simp only [St.received]
    by_cases hn : n = channel
    · subst hn
      simp [commands, hq]
    · rw [Function.update_of_ne hn, Function.update_of_ne hn]
      simp [commands]

/-- **Everything received went to the channel it is for**, in order. -/
theorem received_run {ls : List Label} (hr : run (step reverseMap) init ls = some s) (hok : .sendFails ∉ ls)
    (n : Nat) :
    s.received n = (commands ls).filter fun ioData => decide (reverseMap.lookup ioData.id = some n) := by
  have key := run_traced (step reverseMap)
    (I := fun past t => .sendFails ∉ past →
      t.received n = (commands past).filter fun ioData => decide (reverseMap.lookup ioData.id = some n))
    ?_ (fun _ => rfl) hr
  · exact key hok
  · intro past t l t' ih hs hno
    rw [List.mem_append, not_or, List.mem_singleton] at hno
    have hcommands : commands (past ++ [l]) = commands past ++ commands [l] := List.filterMap_append
    rw [received_step hs (Ne.symm hno.2), ih hno.1, hcommands, List.filter_append]

/-- The channel of an id is the one of its address. -/
theorem lookup_reverseMap_iff (outputMap : OutputSharedContextMap) (hn : (io.outputs.map (·.id)).Nodup)
    (he : HMap.Enumerates configs (makeOutputControllerMap parse io)) {n : Nat}
    {config : OutputControllerConfig Ip} {id : String} (hget : configs[n]? = some config) :
    (launch parse io outputMap configs).reverseMap.lookup id = some n ↔ addressee parse io id = some config := by
  obtain ⟨hsome, hnone⟩ := lookup_reverseMap outputMap hn he id
  constructor
  · intro hl
    obtain ⟨config', hget', ha⟩ := hsome n hl
    rw [hget] at hget'
    cases hget'
    exact ha
  · intro ha
    cases hl : (launch parse io outputMap configs).reverseMap.lookup id with
    | none =>
      rw [hnone hl] at ha
      cases ha
    | some channel =>
      obtain ⟨config', hget', ha'⟩ := hsome channel hl
      rw [ha] at ha'
      cases ha'
      have hlt := (List.getElem?_eq_some_iff.1 hget').1
      rw [(List.getElem?_inj hlt he.1).1 (hget'.trans hget.symm)]

/-- What `run_output_controllers` is for: one controller for each address, which handles the outputs of that
address and receives the commands for them, in order, and nobody receives anything else. -/
structure Routes (parse : Parsers Ip) (io : IoConfig) (launched : Launched Ip) (past : List Label) (s : St) : Prop where
  single : (launched.instances.map (·.1)).Nodup
  all : ∀ output ∈ io.outputs, ∀ config, outputConfig parse output.kind = some config →
    config ∈ launched.instances.map (·.1)
  handles : ∀ config map, (config, map) ∈ launched.instances → Handles parse io config map
  ordered : ∀ (n : Nat) config map, launched.instances[n]? = some (config, map) →
    s.received n = (commands past).filter fun ioData => decide (addressee parse io ioData.id = some config)
  others : ∀ (n : Nat), launched.instances.length ≤ n → s.received n = []
  /-- A command on its way is sent, or its controller makes room for it. -/
  moving : ∀ (n : Nat) ioData, s.pc = .send n ioData →
    (step launched.reverseMap s .sent).isSome ∨ (step launched.reverseMap s (.take n)).isSome

/-- A command waits only for a channel from which something can be taken. -/
theorem step_isSome {n : Nat} {ioData : IODataAction} (hp : s.pc = .send n ioData) :
    (step reverseMap s .sent).isSome ∨ (step reverseMap s (.take n)).isSome := by
  by_cases hroom : (s.queues n).length < channelCapacity
  · left
    simp [step, hp, hroom]
  · right
    cases hq : s.queues n with
    | nil =>
      rw [hq] at hroom
      exact absurd (show 0 < channelCapacity by decide) hroom
    | cons ioData rest => simp [step, hq]

/-- **Every output command reaches exactly its controller, once and in order.** -/
theorem commands_routed {ls : List Label} (hn : (io.outputs.map (·.id)).Nodup) (ho : OutputsOf io outputMap)
    (he : HMap.Enumerates configs (makeOutputControllerMap parse io))
    (hr : run (step (launch parse io outputMap configs).reverseMap) init ls = some s) (hok : .sendFails ∉ ls) :
    Routes parse io (launch parse io outputMap configs) ls s := by
  have hinst := (launch_spec outputMap he).1
  have hconfigs : (launch parse io outputMap configs).instances.map (·.1) = configs := by
    rw [hinst, List.map_map]
    exact List.map_id configs
  have hlen : (launch parse io outputMap configs).instances.length = configs.length := by
    rw [hinst, List.length_map]
  refine ⟨?_, ?_, ?_, ?_, ?_, ?_⟩
  · rw [hconfigs]
    exact he.1
  · intro output hmem config hc
    rw [hconfigs, he.2, mem_makeOutputControllerMap]
    exact List.ne_nil_of_mem (mem_idsOf.2 ⟨output, hmem, rfl, hc⟩)
  · intro config map hmem
    rw [hinst, List.mem_map] at hmem
    obtain ⟨config', _, hpair⟩ := hmem
    cases hpair
    exact handles_filterOutput hn ho config
  · intro n config map hget
    rw [received_run hr hok]
    rw [hinst, List.getElem?_map, Option.map_eq_some_iff] at hget
    obtain ⟨config', hget, hpair⟩ := hget
    cases hpair
    refine List.filter_congr ?_
    intro ioData _
    rw [decide_eq_decide]
    exact lookup_reverseMap_iff outputMap hn he hget
  · intro n hle
    rw [received_run hr hok, List.filter_eq_nil_iff]
    intro ioData _ hl
    obtain ⟨config, hget, _⟩ :=
      (lookup_reverseMap outputMap hn he ioData.id).1 n (of_decide_eq_true hl)
    have hlt := (List.getElem?_eq_some_iff.1 hget).1
    omega
  · intro n ioData hp
    exact step_isSome hp

end

/-! ## A house with two PLCs -/

/-- The two hosts of the examples, each written as its own address, and the ports as `u16` reads them. -/
def twoHosts : Parsers String where
  ip host := if host = "10.0.0.1" ∨ host = "10.0.0.2" then some host else none
  port port := (Decimal.parseUnsigned 16 port).map UInt16.ofNat

/-- A lamp on the PLC `host`. -/
def lamp (id host : String) (var : UInt32) : Output :=
  ⟨id, id, "light", .woDigital ⟨host, "502", var⟩, "light", true, true⟩

/-- A house with these outputs. -/
def houseOf (outputs : List Output) : IoConfig := ⟨⟨[⟨"House", "house", [], outputs, 0⟩]⟩⟩

/-- A lamp on each PLC, and one whose host is no address. -/
def twoPlcs : IoConfig := houseOf [lamp "hall" "10.0.0.1" 1, lamp "porch" "10.0.0.2" 1, lamp "attic" "plc" 2]

/-- The controller at this address. -/
def plc (host : String) : OutputControllerConfig String := .wago ⟨host, 502⟩

/-- The second PLC is told to toggle the porch, and nobody hears of the attic. -/
theorem commands_routed_porch : ∃ s, run (step (launch twoHosts twoPlcs (makeOutputContextMap twoPlcs)
      [plc "10.0.0.1", plc "10.0.0.2"]).reverseMap) init
      [.recv (some ⟨"attic", .toggle⟩), .recv (some ⟨"porch", .toggle⟩), .sent] = some s ∧
    s.received 1 = [⟨"porch", .toggle⟩] ∧ s.received 0 = [] := by
  have hrun : (run (step (launch twoHosts twoPlcs (makeOutputContextMap twoPlcs)
      [plc "10.0.0.1", plc "10.0.0.2"]).reverseMap) init
      [.recv (some ⟨"attic", .toggle⟩), .recv (some ⟨"porch", .toggle⟩), .sent]).isSome = true := by decide +kernel
  obtain ⟨s, hr⟩ := Option.isSome_iff_exists.1 hrun
  have he : HMap.Enumerates [plc "10.0.0.1", plc "10.0.0.2"] (makeOutputControllerMap twoHosts twoPlcs) := by
    decide +kernel
  have hroutes := commands_routed (by decide) (fun _ => rfl) he hr (by decide)
  refine ⟨s, hr, ?_, ?_⟩
  · rw [hroutes.ordered 1 (plc "10.0.0.2") _ rfl]
    decide +kernel
  · rw [hroutes.ordered 0 (plc "10.0.0.1") _ rfl]
    decide +kernel

end Calaos.OutputControllers
