import Calaos.EndToEnd
/-!
# How the messages on the state topics are read

The MQTT client makes a message of a value that goes round in the server (`publish_state`), and announces the inputs and
outputs with the states that they can be in (`publish_discovery_with`). A message on a state topic is of use if all that
are announced with this topic list its text, for the value it was made of and for no other (`Interpreted`). Here is that
the message of every value is (`states_interpreted`): no controller ever broadcasts a value that is not one of the
states of its output.

That is how they are read if they are there. Whether a value is published is another matter (`MqttStates`: none is after
a lag), and so is whether an entity is announced (`Identities`: not behind a topic that is refused).
-/
namespace Calaos

/-! ## The states in a discovery message -/

namespace Mqtt

open Serde

/-- The states of an output, with the values that Home Assistant takes them for. -/
def outputStates : OutputKind → List (String × IOValue)
  | .woShutter _ => [("state_open", .shutter .up), ("state_opening", .shutter .movingUp),
      ("state_closed", .shutter .down), ("state_closing", .shutter .movingDown)]
  | _ => [("state_on", .bool true), ("state_off", .bool false)]

/-- Those of an input. -/
def inputStates : List (String × IOValue) := [("payload_on", .bool true), ("payload_off", .bool false)]

/-- The text is one of the states, and stands for this value and no other. -/
def Says (entries : Entries) (states : List (String × IOValue)) (text : String) (value : IOValue) : Prop :=
  ∀ other, (∃ key, (key, other) ∈ states ∧ (key, .str text) ∈ entries) ↔ other = value

/-- The discovery messages with this topic, and there is one, make the text mean the value. -/
structure Interpreted (config : MqttConfig) (io : IoConfig) (topic text : String) (value : IOValue) : Prop where
  document : ∃ document ∈ publishDiscoveryWith config io, ("state_topic", .str topic) ∈ document.entries
  inputs : ∀ room ∈ io.home.rooms, ∀ input ∈ room.inputs,
    ("state_topic", .str topic) ∈ (inputDiscovery config room input).entries →
      Says (inputDiscovery config room input).entries inputStates text value
  outputs : ∀ room ∈ io.home.rooms, ∀ output ∈ room.outputs,
    ("state_topic", .str topic) ∈ (outputDiscovery config room output).entries →
      Says (outputDiscovery config room output).entries (outputStates output.kind) text value

section
variable {config : MqttConfig} {io : IoConfig} {room : Room} {input : Input} {output : Output}

theorem stateTopic_inj {id id' : String} :
    config.nodeId ++ "/state/" ++ id = config.nodeId ++ "/state/" ++ id' ↔ id = id' := by
  constructor
  · intro h
    have hlist := congrArg String.toList h
    simp only [String.toList_append] at hlist
    exact String.toList_injective (List.append_cancel_left hlist)
  · rintro rfl
    rfl

theorem input_stateTopic {id : String} :
    ("state_topic", .str (config.nodeId ++ "/state/" ++ id)) ∈ (inputDiscovery config room input).entries ↔
      input.id = id := by
  simp only [inputDiscovery, Request.entries, discoveryBase, List.mem_append, List.mem_cons, Prod.mk.injEq,
    Json.str.injEq, List.not_mem_nil, or_false, stateTopic_inj]
  simp [eq_comm]

theorem output_stateTopic {id : String} :
    ("state_topic", .str (config.nodeId ++ "/state/" ++ id)) ∈ (outputDiscovery config room output).entries ↔
      output.id = id := by
  rw [entries_outputDiscovery]
  cases output.kind <;>
  · simp only [ownEntries, discoveryBase, List.map_cons, List.map_nil, List.mem_append, List.mem_cons, Prod.mk.injEq,
      Json.str.injEq, List.not_mem_nil, or_false, stateTopic_inj]
    simp [eq_comm]

/-- An input is on or off. -/
theorem says_input (b : Bool) :
    Says (inputDiscovery config room input).entries inputStates (encodeStateString (.bool b)) (.bool b) := by
  intro other
  cases b <;>
    simp [inputDiscovery, Request.entries, discoveryBase, inputStates, encodeStateString, or_and_right, exists_or,
      and_assoc]

/-- The keys of the states are those of an output alone. -/
theorem mem_ownEntries_of_state {key text : String} {value : IOValue} (hs : (key, value) ∈ outputStates output.kind) :
    (key, .str text) ∈ (outputDiscovery config room output).entries ↔ (key, text) ∈ ownEntries output.kind := by
  have hshared : ∀ kind, ∀ p ∈ outputStates kind,
      p.1 ∉ ["name", "unique_id", "state_topic", "availability", "device", "command_topic"] := by
    intro kind
    cases kind <;> simp [outputStates]
  have hkey := hshared _ _ hs
  rw [entries_outputDiscovery, List.mem_append, List.mem_append]
  constructor
  · rintro ((h | h) | h)
    · have hmem : key ∈ (discoveryBase config room output.name output.id).map Prod.fst := List.mem_map_of_mem h
      exact absurd (List.mem_append_left ["command_topic"] hmem) hkey
    · rw [List.mem_singleton, Prod.mk.injEq] at h
      exact absurd (by simp [h.1]) hkey
    · obtain ⟨p, hp, he⟩ := List.mem_map.1 h
      cases he
      exact hp
  · exact fun h => .inr (List.mem_map_of_mem h)

/-- What suits an output is one of its states. -/
theorem says_output {value : IOValue} (hs : Wago.Suits value (some output.kind)) :
    Says (outputDiscovery config room output).entries (outputStates output.kind) (encodeStateString value) value := by
  intro other
  have hown : (∃ key, (key, other) ∈ outputStates output.kind ∧
      (key, .str (encodeStateString value)) ∈ (outputDiscovery config room output).entries) ↔
        ∃ key, (key, other) ∈ outputStates output.kind ∧ (key, encodeStateString value) ∈ ownEntries output.kind :=
    exists_congr fun key => and_congr_right fun hmem => mem_ownEntries_of_state hmem
  rw [hown]
  cases hk : output.kind with
  | hueOutputLightRGB | mySensorsOutputShutterSmart =>
    rw [hk] at hs
    exact hs.elim
  | woDigital io =>
    rw [hk] at hs
    obtain ⟨b, rfl⟩ := hs
    cases b <;> simp [ownEntries, outputStates, encodeStateString, or_and_right, exists_or, and_assoc]
  | woShutter io =>
    rw [hk] at hs
    obtain ⟨state, rfl⟩ := hs
    cases state <;> simp [ownEntries, outputStates, encodeStateString, or_and_right, exists_or, and_assoc]

end

end Mqtt

/-! ## What goes round in the server -/

namespace Server

open Runs Queue
open Mqtt (MqttConfig publishState publishDiscoveryWith inputDiscovery outputDiscovery encodeStateString Interpreted)

section
variable {Ip : Type} [DecidableEq Ip] {site : Site Ip} {Addr : Type} {s : St} {past : List (Label Addr)}

/-- What is broadcast is the raw state of an input, or a value that suits an output of the configuration. -/
theorem broadcast_cases (hn : (site.io.outputs.map (·.id)).Nodup)
    (h : run (Server.step site) (init site) past = some s) {d : IOData} (hm : d ∈ s.feedback.log.map (·.2)) :
    (∃ input ∈ site.io.inputs, ∃ b, d = ⟨input.id, .bool b⟩) ∨
      ∃ output ∈ site.io.outputs, output.id = d.id ∧ Wago.Suits d.value (some output.kind) := by
  obtain ⟨⟨origin, d⟩, hlog, rfl⟩ := List.mem_map.1 hm
  have htagged := mem_tagged.2 hlog
  cases origin with
  | input =>
    rw [← (run_submitted h).raw] at htagged
    exact .inl (MainServer.mem_broadcasts_serve htagged)
  | controller n =>
    have htold := (run_parts h).told n
    rw [htold.told] at htagged
    have hsuits := htold.announces.suits d (List.mem_of_mem_take htagged)
    cases hk : Wago.kindOf (site.outputs n) d.id with
    | none =>
      rw [hk] at hsuits
      exact hsuits.elim
    | some kind =>
      obtain ⟨_, _, output, hmem, hid, hkind, _⟩ := outputs_handles hn hk
      rw [hk, ← hkind] at hsuits
      exact .inr ⟨output, hmem, hid, hsuits⟩

/-- **Home Assistant would misread nothing**, whatever happens: the message of a value that was broadcast is, for every
entity that its topic is announced for, a state of this entity, and the one that the value is. Inputs and outputs are to
have ids of their own. -/
theorem states_interpreted (config : MqttConfig) (hn : (site.io.outputs.map (·.id)).Nodup)
    (hdisjoint : ∀ input ∈ site.io.inputs, ∀ output ∈ site.io.outputs, input.id ≠ output.id)
    (h : run (Server.step site) (init site) past = some s) {d : IOData} (hm : d ∈ s.feedback.log.map (·.2))
    {topic text : String} {retain : Bool} (hmessage : publishState config d = .publish topic retain (.text text)) :
    Interpreted config site.io topic text d.value := by
  cases hmessage
  have hinput : ∀ room ∈ site.io.home.rooms, ∀ input ∈ room.inputs, input ∈ site.io.inputs :=
    fun room hroom input hin => List.mem_flatMap.2 ⟨room, hroom, hin⟩
  have houtput : ∀ room ∈ site.io.home.rooms, ∀ output ∈ room.outputs, output ∈ site.io.outputs :=
    fun room hroom output hout => List.mem_flatMap.2 ⟨room, hroom, hout⟩
  rcases broadcast_cases hn h hm with ⟨input, hin, b, rfl⟩ | ⟨output, hout, hid, hsuits⟩
  · obtain ⟨room, hroom, hmem⟩ := List.mem_flatMap.1 hin
    refine ⟨⟨inputDiscovery config room input, ?_, Mqtt.input_stateTopic.2 rfl⟩, fun _ _ _ _ _ => Mqtt.says_input b, ?_⟩
    · exact List.mem_flatMap.2 ⟨room, hroom, List.mem_append_left _ (List.mem_map_of_mem hmem)⟩
    · intro room' hroom' output' hmem' htopic
      exact absurd (Mqtt.output_stateTopic.1 htopic).symm (hdisjoint input hin output' (houtput room' hroom' output' hmem'))
  · obtain ⟨room, hroom, hmem⟩ := List.mem_flatMap.1 hout
    refine ⟨⟨outputDiscovery config room output, ?_, Mqtt.output_stateTopic.2 hid⟩, ?_, ?_⟩
    · exact List.mem_flatMap.2 ⟨room, hroom, List.mem_append_right _ (List.mem_map_of_mem hmem)⟩
    · intro room' hroom' input' hmem' htopic
      exact absurd ((Mqtt.input_stateTopic.1 htopic).trans hid.symm)
        (hdisjoint input' (hinput room' hroom' input' hmem') output hout)
    · intro room' hroom' output' hmem' htopic
      obtain rfl := output_unique hn hout (houtput room' hroom' output' hmem')
        ((Mqtt.output_stateTopic.1 htopic).trans hid.symm)
      exact Mqtt.says_output hsuits

end

/-- The shutter of the hall opens, and that is what its message says. -/
theorem states_interpreted_porch : ∃ s : St,
    run (step (porchSite false)) (init (porchSite false)) (rings ++ lights ++ opens) = some s ∧
    (⟨"blinds", .shutter .movingUp⟩ : IOData) ∈ s.feedback.log.map (·.2) ∧
    publishState ⟨"homeassistant", "calaos"⟩ ⟨"blinds", .shutter .movingUp⟩ =
      .publish "calaos/state/blinds" false (.text "opening") ∧
    Interpreted ⟨"homeassistant", "calaos"⟩ porchHouse "calaos/state/blinds" "opening" (.shutter .movingUp) := by
  have hrun : ((run (step (porchSite false)) (init (porchSite false)) (rings ++ lights ++ opens)).map
      fun s => decide ((⟨"blinds", .shutter .movingUp⟩ : IOData) ∈ s.feedback.log.map (·.2))) = some true := by
    decide +kernel
  obtain ⟨s, hs, hm⟩ := Option.map_eq_some_iff.1 hrun
  have hm := of_decide_eq_true hm
  exact ⟨s, hs, hm, rfl, states_interpreted ⟨"homeassistant", "calaos"⟩ (by decide) (by decide) hs hm rfl⟩

end Server

end Calaos
