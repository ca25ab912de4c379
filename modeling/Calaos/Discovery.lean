import Calaos.MqttClient
import Calaos.Topics
/-!
# MQTT discovery and commands (core/src/mqtt_client.rs, `handle_command` and `publish_discovery_with`)

| here | there |
| --- | --- |
| `toUppercase`            | `str::to_uppercase`, as far as the result is ASCII |
| `command`, `handleCommand` | the `match` of `handle_command`, and what it sends; `none` is `return Ok(())` |
| `Request.entries`        | what a discovery message says, read back from it |
| `meaning`                | what Home Assistant uses a payload of a cover or of a switch for |

This is about the discovery messages as they are made. `publish_discovery_with` ends with an error at the first of them
whose topic `AsyncClient::publish` refuses, for a `+` or a `#` in it (`passed`); `Identities` says which that leaves.
-/
namespace Calaos.Mqtt

open Serde Topics

/-! ## Commands -/

/-- The characters that are not ASCII and have an uppercase that is. -/
def becomesAscii : List (Nat × String) :=
  [(0xDF, "SS"), (0x131, "I"), (0x17F, "S"), (0xFB00, "FF"), (0xFB01, "FI"), (0xFB02, "FL"), (0xFB03, "FFI"),
    (0xFB04, "FFL"), (0xFB05, "ST"), (0xFB06, "ST")]

/-- `char::to_uppercase`. What has no ASCII uppercase is left as it is: no command has such a character. -/
def upper (c : Char) : List Char :=
  match becomesAscii.lookup c.toNat with
  | some letters => letters.toList
  | none => [c.toUpper]

def toUppercase (text : String) : String := .ofList (text.toList.flatMap upper)

def command : String → Option IOAction
  | "ON" => some (.setValue (.bool true))
  | "OFF" => some (.setValue (.bool false))
  | "OPEN" => some (.setValue (.shutter .up))
  | "CLOSE" => some (.setValue (.shutter .down))
  | "STOP" => some .stop
  | "TOGGLE" => some .toggle
  | _ => none

/-- `handle_command`. A payload that is not UTF-8 gets replacement characters and is no command. -/
def handleCommand (nodeId topic : String) (payload : ByteArray) : Option IODataAction :=
  match levels topic with
  | [node, set, id] =>
    if node ≠ nodeId ∨ set ≠ "set" then none
    else
      match String.fromUTF8? payload with
      | some text => (command (toUppercase text)).map fun action => ⟨id, action⟩
      | none => none
  | _ => none

section
variable {nodeId topic id text payload : String} {action : IOAction}

/-- A command has three levels. -/
theorem handleCommand_eq_some {bytes : ByteArray} {d : IODataAction} (h : handleCommand nodeId topic bytes = some d) :
    levels topic = [nodeId, "set", d.id] := by
  unfold handleCommand at h
  split at h
  · rename_i node set id hlevels
    by_cases hne : node ≠ nodeId ∨ set ≠ "set"
    · rw [if_pos hne] at h
      cases h
    · rw [if_neg hne] at h
      simp only [ne_eq, not_or, not_not] at hne
      split at h
      · obtain ⟨action, _, rfl⟩ := Option.map_eq_some_iff.1 h
        rw [hlevels, hne.1, hne.2]
      · cases h
  · cases h

theorem fromUTF8_toUTF8 (text : String) : String.fromUTF8? text.toUTF8 = some text := by
  have h : text.toUTF8.IsValidUTF8 := text.isValidUTF8
  exact dif_pos h

theorem handleCommand_of_levels (hlevels : levels topic = [nodeId, "set", id])
    (haction : command (toUppercase text) = some action) :
    handleCommand nodeId topic text.toUTF8 = some ⟨id, action⟩ := by
  unfold handleCommand
  simp only [hlevels, fromUTF8_toUTF8, haction, ne_eq, not_true_eq_false, or_self, if_false, Option.map_some]

/-- Anything else is no command. -/
theorem handleCommand_eq_none {bytes : ByteArray}
    (h : ¬ ∃ level : String, '/' ∉ level.toList ∧ topic = nodeId ++ "/set/" ++ level) :
    handleCommand nodeId topic bytes = none := by
  by_contra hne
  obtain ⟨d, hd⟩ := Option.ne_none_iff_exists'.1 hne
  have hlevels := handleCommand_eq_some hd
  have hid : d.id ∈ levels topic := by simp [hlevels]
  refine h ⟨d.id, not_mem_of_mem_levels hid, ?_⟩
  apply String.toList_injective
  rw [← intercalate_levels, hlevels]
  simp [String.toList_append, List.intercalate]

end

/-! ## Letter case -/

/-- The texts differ in the case of their letters at most. -/
def SameLetters (a b : String) : Prop := a.toList.map Char.toLower = b.toList.map Char.toLower

section
variable {c d : Char}

theorem isUpper_eq : c.isUpper = decide (c.val ≥ 'A'.val ∧ c.val ≤ 'Z'.val) := rfl

theorem isUpper_iff : c.isUpper = true ↔ ∃ n : Fin 26, c = Char.ofNat (65 + n) := by
  constructor
  · intro h
    rw [isUpper_eq, decide_eq_true_eq] at h
    have hlo : 65 ≤ c.toNat := UInt32.le_iff_toNat_le.1 h.1
    have hhi : c.toNat ≤ 90 := UInt32.le_iff_toNat_le.1 h.2
    refine ⟨⟨c.toNat - 65, by omega⟩, ?_⟩
    rw [show 65 + (c.toNat - 65) = c.toNat by omega, Char.ofNat_toNat]
  · rintro ⟨n, rfl⟩
    revert n
    decide

theorem toLower_eq_of_not_isUpper (h : ¬ c.isUpper = true) : c.toLower = c := by
  rw [isUpper_eq, decide_eq_true_eq] at h
  exact dif_neg h

theorem upper_letter : ∀ n : Fin 26, upper (Char.ofNat (65 + n)) = [Char.ofNat (65 + n)] ∧
    upper (Char.ofNat (65 + n)).toLower = [Char.ofNat (65 + n)] := by decide

theorem toLower_letter_inj : ∀ n m : Fin 26,
    (Char.ofNat (65 + n)).toLower = (Char.ofNat (65 + m)).toLower → n = m := by decide

/-- A capital letter and its small letter become the capital letter. -/
theorem upper_eq (hd : d.isUpper = true) (h : c.toLower = d.toLower) : upper c = [d] := by
  obtain ⟨n, rfl⟩ := isUpper_iff.1 hd
  by_cases hc : c.isUpper = true
  · obtain ⟨m, rfl⟩ := isUpper_iff.1 hc
    rw [toLower_letter_inj m n h]
    exact (upper_letter n).1
  · rw [toLower_eq_of_not_isUpper hc] at h
    rw [h]
    exact (upper_letter n).2

theorem flatMap_upper {letters capitals : List Char} (hcapitals : ∀ d ∈ capitals, d.isUpper = true)
    (h : letters.map Char.toLower = capitals.map Char.toLower) : letters.flatMap upper = capitals := by
  induction capitals generalizing letters with
  | nil =>
    rw [List.map_nil, List.map_eq_nil_iff] at h
    rw [h, List.flatMap_nil]
  | cons d capitals ih =>
    obtain ⟨hd, hrest⟩ := List.forall_mem_cons.1 hcapitals
    cases letters with
    | nil => cases h
    | cons c letters =>
      rw [List.map_cons, List.map_cons, List.cons.injEq] at h
      rw [List.flatMap_cons, upper_eq hd h.1, ih hrest h.2]
      rfl

theorem SameLetters.toUppercase_eq {text payload : String} (h : SameLetters text payload)
    (hpayload : ∀ d ∈ payload.toList, d.isUpper = true) : toUppercase text = payload := by
  unfold toUppercase
  rw [flatMap_upper hpayload h, String.ofList_toList]

end

/-! ## Is the advertised topic understood? -/

/-- The entries of a discovery message. -/
def Request.entries : Request → Entries
  | .publish _ _ (.json (.obj entries)) => entries
  | _ => []

/-- The payloads of an entity, with what Home Assistant sends them for. -/
def meaning : OutputKind → List (String × IOAction)
  | .woShutter _ => [("payload_open", .setValue (.shutter .up)), ("payload_close", .setValue (.shutter .down)),
      ("payload_stop", .stop)]
  | _ => [("payload_on", .setValue (.bool true)), ("payload_off", .setValue (.bool false))]

/-- What the discovery message of an output promises about its commands is kept. -/
structure Understood (config : MqttConfig) (room : Room) (output : Output) : Prop where
  /-- The topic is one of those subscribed to. -/
  subscribed : ∀ topic, ("command_topic", .str topic) ∈ (outputDiscovery config room output).entries →
    topicMatches (commandFilter config) topic = true
  /-- The payloads, in any letter case, are the commands that they are sent for. -/
  handled : ∀ topic, ("command_topic", .str topic) ∈ (outputDiscovery config room output).entries →
    ∀ key payload, (key, .str payload) ∈ (outputDiscovery config room output).entries →
      "payload_".toList <+: key.toList → ∀ text, SameLetters text payload →
        ∃ action, (key, action) ∈ meaning output.kind ∧
          handleCommand config.nodeId topic text.toUTF8 = some ⟨output.id, action⟩
  /-- On other topics there are no commands. -/
  others : ∀ topic payload, (¬ ∃ level : String, '/' ∉ level.toList ∧ topic = config.nodeId ++ "/set/" ++ level) →
    handleCommand config.nodeId topic payload = none

section
variable {config : MqttConfig} {room : Room} {output : Output}

theorem mem_entries_command_topic {topic : String} :
    ("command_topic", .str topic) ∈ (outputDiscovery config room output).entries ↔
      topic = config.nodeId ++ "/set/" ++ output.id := by
  unfold outputDiscovery
  cases output.kind <;> simp [Request.entries, discoveryBase]

/-- The entries that an output has apart from those shared with the inputs and the topic of its commands. -/
def ownEntries : OutputKind → List (String × String)
  | .woShutter _ => [("payload_open", "OPEN"), ("payload_close", "CLOSE"), ("payload_stop", "STOP"),
      ("state_open", "open"), ("state_opening", "opening"), ("state_closed", "closed"), ("state_closing", "closing"),
      ("device_class", "shutter")]
  | _ => [("payload_on", "ON"), ("payload_off", "OFF"), ("state_on", "ON"), ("state_off", "OFF")]

theorem entries_outputDiscovery : (outputDiscovery config room output).entries =
    discoveryBase config room output.name output.id ++
      [("command_topic", .str (config.nodeId ++ "/set/" ++ output.id))] ++
        (ownEntries output.kind).map fun p => (p.1, .str p.2) := by
  unfold outputDiscovery ownEntries
  cases output.kind <;> rfl

/-- Each payload is the command that it is sent for, in capital letters. -/
theorem command_ownEntries (kind : OutputKind) : ∀ p ∈ ownEntries kind, "payload_".toList <+: p.1.toList →
    (∀ d ∈ p.2.toList, d.isUpper = true) ∧ ∃ action, command p.2 = some action ∧ (p.1, action) ∈ meaning kind := by
  cases kind <;> simp [ownEntries, meaning, command]

theorem payload_mem {key payload : String}
    (h : (key, .str payload) ∈ (outputDiscovery config room output).entries)
    (hkey : "payload_".toList <+: key.toList) : (key, payload) ∈ ownEntries output.kind := by
  have hshared : ∀ other ∈ ["name", "unique_id", "state_topic", "availability", "device", "command_topic"],
      ¬ "payload_".toList <+: other.toList := by decide
  rw [entries_outputDiscovery, List.mem_append, List.mem_append] at h
  rcases h with (h | h) | h
  · have hmem : key ∈ (discoveryBase config room output.name output.id).map Prod.fst := List.mem_map_of_mem h
    exact absurd hkey (hshared key (List.mem_append_left ["command_topic"] hmem))
  · rw [List.mem_singleton, Prod.mk.injEq] at h
    exact absurd hkey (hshared key (by rw [h.1]; decide))
  · obtain ⟨p, hp, heq⟩ := List.mem_map.1 h
    cases heq
    exact hp

variable (config room output) in
/-- Something is advertised. -/
theorem exists_payload : ∃ key payload, (key, .str payload) ∈ (outputDiscovery config room output).entries ∧
    "payload_".toList <+: key.toList := by
  rw [entries_outputDiscovery]
  cases output.kind with
  | woShutter io => exact ⟨"payload_open", "OPEN", by simp [ownEntries], by decide⟩
  | _ => exact ⟨"payload_on", "ON", by simp [ownEntries], by decide⟩

theorem levels_set (nodeId : String) {id : String} (hid : '/' ∉ id.toList) :
    levels (nodeId ++ "/set/" ++ id) = levels nodeId ++ ["set", id] := by
  have htopic : nodeId ++ "/set/" ++ id = nodeId ++ "/" ++ "set" ++ "/" ++ id := by
    apply String.toList_injective
    simp [String.toList_append]
  rw [htopic, levels_append, levels_append, levels_eq_singleton hid, List.append_assoc]
  rfl

theorem topicMatches_command (hid : '/' ∉ output.id.toList) :
    topicMatches (commandFilter config) (config.nodeId ++ "/set/" ++ output.id) = true := by
  have hfilter : commandFilter config = config.nodeId ++ "/set/" ++ "+" := by
    apply String.toList_injective
    simp [commandFilter, String.toList_append]
  unfold topicMatches
  rw [hfilter, levels_set _ (by decide), levels_set _ hid]
  exact matchLevels_append _ (by simp [matchLevels])

/-- **The advertised commands of an output are understood exactly when the node id has one level.** -/
theorem understood_iff (config : MqttConfig) (io : IoConfig) {room : Room} (hroom : room ∈ io.home.rooms)
    {output : Output} (houtput : output ∈ room.outputs) (hid : '/' ∉ output.id.toList) :
    outputDiscovery config room output ∈ publishDiscoveryWith config io ∧
      (Understood config room output ↔ '/' ∉ config.nodeId.toList) := by
  refine ⟨List.mem_flatMap.2 ⟨room, hroom, List.mem_append_right _ (List.mem_map_of_mem houtput)⟩, ?_, ?_⟩
  · intro hunderstood hslash
    obtain ⟨key, payload, hpayload, hkey⟩ := exists_payload config room output
    obtain ⟨action, _, hsome⟩ :=
      hunderstood.handled _ (mem_entries_command_topic.2 rfl) key payload hpayload hkey payload rfl
    have hlevels := handleCommand_eq_some hsome
    rw [levels_set _ hid] at hlevels
    have hlength := congrArg List.length hlevels
    simp only [List.length_append, List.length_cons, List.length_nil] at hlength
    have := one_lt_length_levels hslash
    omega
  · intro hnode
    constructor
    · intro topic htopic
      rw [mem_entries_command_topic.1 htopic]
      exact topicMatches_command hid
    · intro topic htopic key payload hpayload hkey text htext
      obtain ⟨hcapitals, action, haction, hmeaning⟩ :=
        command_ownEntries output.kind _ (payload_mem hpayload hkey) hkey
      refine ⟨action, hmeaning, handleCommand_of_levels ?_ ?_⟩
      · rw [mem_entries_command_topic.1 htopic, levels_set _ hid, levels_eq_singleton hnode]
        rfl
      · rw [htext.toUppercase_eq hcapitals]
        exact haction
    · intro topic payload hother
      exact handleCommand_eq_none hother

end

/-- A lamp in the hall. -/
def lamp : Output := ⟨"Lamp", "lamp", "", .woDigital ⟨"10.0.0.1", "502", 1⟩, "light", true, true⟩

def hall : Room := ⟨"Hall", "hall", [], [lamp], 0⟩

theorem understood_lamp : Understood ⟨"homeassistant", "calaos"⟩ hall lamp :=
  (understood_iff ⟨"homeassistant", "calaos"⟩ ⟨⟨[hall]⟩⟩ List.mem_cons_self List.mem_cons_self (by decide)).2.2
    (by decide)

/-- With two levels in the node id, the lamp is announced and subscribed to, and cannot be switched on. -/
theorem not_understood_lamp : ¬ Understood ⟨"homeassistant", "home/calaos"⟩ hall lamp := by
  intro h
  obtain ⟨action, _, hsome⟩ := h.handled "home/calaos/set/lamp" (by simp [outputDiscovery, hall, lamp, Request.entries])
    "payload_on" "ON" (by simp [outputDiscovery, hall, lamp, Request.entries]) (by decide) "ON" rfl
  have hlength : (levels "home/calaos/set/lamp").length = 3 := by
    rw [handleCommand_eq_some hsome]
    rfl
  exact absurd hlength (by decide)

end Calaos.Mqtt
