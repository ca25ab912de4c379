import Calaos.Discovery
import Mathlib.Data.List.TakeWhile
/-!
# The identities of the discovered entities (core/src/mqtt_client.rs, `publish_discovery_with`)

| here | there |
| --- | --- |
| `Request.uniqueId`, `Request.topic` | the `unique_id` of a discovery message, and the topic it is retained on |
| `placed`                   | the inputs and outputs with their rooms, in the order in which they are published |
| `placedInputs`, `placedOutputs` | the inputs alone, and the outputs alone |
| `component`                | the component under which an output is announced |
| `published`                | the entities before the first whose topic `publish` refuses |
| `Collide`                  | one room name goes on as the other id begins |

Both identities are made of the name of a room and an id, with `_` between them, which may be part of either. The topic
has both in it too, so one with a wildcard is refused, and ends `publish_discovery_with`: that entity is not published,
and none after it (`Unimpeded`).
-/
namespace Calaos.Mqtt

open Serde Topics

def Request.uniqueId (request : Request) : Option Json := request.entries.lookup "unique_id"

def Request.topic : Request → Option String
  | .publish topic _ _ => some topic
  | .subscribe _ => none

/-- Neither overwrites the other. -/
def Apart (a b : Request) : Prop := a.uniqueId ≠ b.uniqueId ∧ a.topic ≠ b.topic

def placedInputs (io : IoConfig) : List (Room × Input) :=
  io.home.rooms.flatMap fun room => room.inputs.map fun input => (room, input)

def placedOutputs (io : IoConfig) : List (Room × Output) :=
  io.home.rooms.flatMap fun room => room.outputs.map fun output => (room, output)

def component : OutputKind → String
  | .woShutter _ => "cover"
  | _ => "switch"

theorem inputs_eq (io : IoConfig) : io.inputs = (placedInputs io).map Prod.snd := by
  simp [IoConfig.inputs, placedInputs, List.map_flatMap, Function.comp_def]

theorem outputs_eq (io : IoConfig) : io.outputs = (placedOutputs io).map Prod.snd := by
  simp [IoConfig.outputs, placedOutputs, List.map_flatMap, Function.comp_def]

/-! ## What is published -/

/-- An entity with its room. -/
abbrev Placed : Type := Room × (Input ⊕ Output)

def Placed.id : Placed → String
  | (_, .inl input) => input.id
  | (_, .inr output) => output.id

def placed (io : IoConfig) : List Placed :=
  io.home.rooms.flatMap fun room =>
    room.inputs.map (fun input => (room, .inl input)) ++ room.outputs.map fun output => (room, .inr output)

def discovery (config : MqttConfig) : Placed → Request
  | (room, .inl input) => inputDiscovery config room input
  | (room, .inr output) => outputDiscovery config room output

/-- The component in the topic of an entity. -/
def Placed.component : Placed → String
  | (_, .inl _) => "binary_sensor"
  | (_, .inr output) => Mqtt.component output.kind

/-- The entities that are published. -/
def published (accepts : Request → Bool) (config : MqttConfig) (io : IoConfig) : List Placed :=
  (placed io).takeWhile fun e => accepts (discovery config e)

section
variable {config : MqttConfig} {io : IoConfig} {accepts : Request → Bool}

theorem publishDiscoveryWith_eq : publishDiscoveryWith config io = (placed io).map (discovery config) := by
  simp only [publishDiscoveryWith, placed, List.map_flatMap, List.map_append, List.map_map]
  rfl

/-- They are what gets through of `publish_discovery_with`. -/
theorem passed_publishDiscoveryWith :
    passed accepts (publishDiscoveryWith config io) = (published accepts config io).map (discovery config) := by
  rw [publishDiscoveryWith_eq, passed, List.takeWhile_map]
  rfl

variable (config) in
/-- What an entity announces. -/
theorem discovery_identity (e : Placed) :
    (discovery config e).uniqueId = some (.str (e.1.name ++ "_" ++ e.id)) ∧
      ∃ tree, discovery config e = .publish (discoveryTopic config e.component e.1 e.id) true (.json tree) := by
  obtain ⟨room, input | output⟩ := e
  · exact ⟨rfl, _, rfl⟩
  · simp only [discovery, outputDiscovery, Placed.component, component]
    cases output.kind <;> exact ⟨rfl, _, rfl⟩

theorem plain_discoveryTopic {comp id : String} {room : Room} (hcomp : Plain comp) :
    Plain (discoveryTopic config comp room id) ↔
      (Plain config.discoveryPrefix ∧ Plain config.nodeId) ∧ Plain room.name ∧ Plain id := by
  have hslash : Plain "/" := by decide
  have hunderscore : Plain "_" := by decide
  have hconfig : Plain "/config" := by decide
  simp only [discoveryTopic, plain_append, hcomp, hslash, hunderscore, hconfig, and_true]
  tauto

theorem plain_component (e : Placed) : Plain e.component := by
  obtain ⟨room, input | output⟩ := e
  · exact (by decide : Plain "binary_sensor")
  · simp only [Placed.component, component]
    cases output.kind with
    | woShutter io => exact (by decide : Plain "cover")
    | _ => exact (by decide : Plain "switch")

/-- The topic of an entity is accepted if nothing in it is a wildcard. -/
theorem accepts_discovery (haccepts : RefusesWildcards accepts) (e : Placed) :
    accepts (discovery config e) = true ↔
      (Plain config.discoveryPrefix ∧ Plain config.nodeId) ∧ Plain e.1.name ∧ Plain e.id := by
  obtain ⟨_, tree, he⟩ := discovery_identity config e
  rw [he, haccepts, plain_discoveryTopic (plain_component e)]

/-- The entities before the first with a wildcard in its id or in the name of its room. -/
def plainPart (io : IoConfig) : List Placed := (placed io).takeWhile fun e => decide (Plain e.1.name ∧ Plain e.id)

variable (config io) in
/-- No wildcard is in the way of the entity. -/
def Unimpeded (e : Placed) : Prop :=
  (Plain config.discoveryPrefix ∧ Plain config.nodeId) ∧ e ∈ plainPart io

theorem mem_published (haccepts : RefusesWildcards accepts) {e : Placed} :
    e ∈ published accepts config io ↔ Unimpeded config io e := by
  by_cases hconfig : Plain config.discoveryPrefix ∧ Plain config.nodeId
  · have hsame : (fun e => accepts (discovery config e)) = fun e : Placed => decide (Plain e.1.name ∧ Plain e.id) := by
      funext e
      rw [Bool.eq_iff_iff, accepts_discovery haccepts, decide_eq_true_iff]
      exact and_iff_right hconfig
    rw [published, hsame]
    exact (and_iff_right hconfig).symm
  · refine iff_of_false (fun hmem => ?_) fun h => hconfig h.1
    have haccepted : accepts (discovery config e) = true :=
      List.mem_takeWhile_imp (p := fun e => accepts (discovery config e)) hmem
    exact hconfig ((accepts_discovery haccepts e).1 haccepted).1

/-- Without wildcards in the configuration nothing is in the way of anything. -/
theorem unimpeded_of_plain (hconfig : Plain config.discoveryPrefix ∧ Plain config.nodeId)
    (h : ∀ e ∈ placed io, Plain e.1.name ∧ Plain e.id) {e : Placed} (he : e ∈ placed io) : Unimpeded config io e := by
  refine ⟨hconfig, ?_⟩
  rw [plainPart, List.takeWhile_eq_self_iff.2 fun e he => decide_eq_true (h e he)]
  exact he

end

/-! ## When two identities are the same -/

/-- One of two room names goes on, after a `_`, with a text that the id in the other room begins with. -/
def Collide (a i b j : String) : Prop :=
  ∃ m, (a = b ++ "_" ++ m ∧ j = m ++ "_" ++ i) ∨ (b = a ++ "_" ++ m ∧ i = m ++ "_" ++ j)

section
variable {a b i j : String}

theorem underscore_eq_iff (hne : i ≠ j) : a ++ "_" ++ i = b ++ "_" ++ j ↔ Collide a i b j := by
  constructor
  · intro h
    have hchars : a.toList ++ '_' :: i.toList = b.toList ++ '_' :: j.toList := by
      simpa [String.toList_append] using congrArg String.toList h
    have hne' : i.toList ≠ j.toList := fun he => hne (String.toList_injective he)
    rcases List.append_eq_append_iff.1 hchars with ⟨m, hb, hi⟩ | ⟨m, ha, hj⟩
    · cases m with
      | nil => simp [hne'] at hi
      | cons c m =>
        simp only [List.cons_append, List.cons.injEq] at hi
        obtain ⟨rfl, hi⟩ := hi
        refine ⟨.ofList m, .inr ⟨?_, ?_⟩⟩ <;> apply String.toList_injective <;> simp [hb, hi]
    · cases m with
      | nil => simp [hne'.symm] at hj
      | cons c m =>
        simp only [List.cons_append, List.cons.injEq] at hj
        obtain ⟨rfl, hj⟩ := hj
        refine ⟨.ofList m, .inl ⟨?_, ?_⟩⟩ <;> apply String.toList_injective <;> simp [ha, hj]
  · rintro ⟨m, ⟨rfl, rfl⟩ | ⟨rfl, rfl⟩⟩ <;> simp [String.append_assoc]

/-- Room names without a `_` make the ids the difference. -/
theorem not_collide (ha : '_' ∉ a.toList) (hb : '_' ∉ b.toList) : ¬ Collide a i b j := by
  rintro ⟨m, ⟨rfl, _⟩ | ⟨rfl, _⟩⟩
  · simp [String.toList_append] at ha
  · simp [String.toList_append] at hb

end

section
variable {config : MqttConfig} {room room' : Room}

theorem discoveryTopic_eq_iff {comp id id' : String} :
    discoveryTopic config comp room id = discoveryTopic config comp room' id' ↔
      room.name ++ "_" ++ id = room'.name ++ "_" ++ id' := by
  have hsplit : ∀ (room : Room) (id : String), discoveryTopic config comp room id =
      config.discoveryPrefix ++ "/" ++ comp ++ "/" ++ config.nodeId ++ "/" ++ (room.name ++ "_" ++ id) ++ "/config" := by
    intro room id
    simp only [discoveryTopic, String.append_assoc]
  rw [hsplit, hsplit, String.append_left_inj, String.append_right_inj]

/-- Of the same component, so that it is for the rest of the topic to tell them apart. -/
theorem apart_iff {e f : Placed} (hcomponent : e.component = f.component) (hne : e.id ≠ f.id) :
    Apart (discovery config e) (discovery config f) ↔ ¬ Collide e.1.name e.id f.1.name f.id := by
  obtain ⟨heId, etree, he⟩ := discovery_identity config e
  obtain ⟨hfId, ftree, hf⟩ := discovery_identity config f
  rw [← underscore_eq_iff hne]
  unfold Apart
  rw [heId, hfId, he, hf, hcomponent]
  simp [Request.topic, discoveryTopic_eq_iff]

end

/-! ## Which configurations have no collision -/

/-- Two inputs, and two outputs of one component, always are so. -/
def Each (io : IoConfig) (P : Placed → Placed → Prop) : Prop :=
  ((placedInputs io).Pairwise fun p q => P (p.1, .inl p.2) (q.1, .inl q.2)) ∧
    (placedOutputs io).Pairwise fun p q =>
      component p.2.kind = component q.2.kind → P (p.1, .inr p.2) (q.1, .inr q.2)

/-- Both are published, and neither overwrites the other. -/
structure PublishedApart (accepts : Request → Bool) (config : MqttConfig) (io : IoConfig) (e f : Placed) : Prop where
  left : e ∈ published accepts config io
  right : f ∈ published accepts config io
  apart : Apart (discovery config e) (discovery config f)

/-- Conditions on pairs of elements that are the same for elements that are different. -/
theorem pairwise_congr {α : Type} {R P Q : α → α → Prop} {as : List α} (hR : as.Pairwise R)
    (h : ∀ a b, R a b → (P a b ↔ Q a b)) : as.Pairwise P ↔ as.Pairwise Q := by
  constructor
  · intro hP
    exact (hR.and hP).imp fun hab => (h _ _ hab.1).1 hab.2
  · intro hQ
    exact (hR.and hQ).imp fun hab => (h _ _ hab.1).2 hab.2

/-- It is enough to compare the two of a kind with ids that are different. -/
theorem each_congr {io : IoConfig} {P Q : Placed → Placed → Prop} (hinputs : (io.inputs.map (·.id)).Nodup)
    (houtputs : (io.outputs.map (·.id)).Nodup)
    (h : ∀ e f : Placed, e.component = f.component → e.id ≠ f.id → (P e f ↔ Q e f)) : Each io P ↔ Each io Q := by
  have hin : (placedInputs io).Pairwise fun p q => p.2.id ≠ q.2.id := by
    rw [inputs_eq, List.map_map] at hinputs
    exact List.pairwise_map.1 hinputs
  have hout : (placedOutputs io).Pairwise fun p q => p.2.id ≠ q.2.id := by
    rw [outputs_eq, List.map_map] at houtputs
    exact List.pairwise_map.1 houtputs
  refine and_congr (pairwise_congr hin fun p q hne => ?_) (pairwise_congr hout fun p q hne => ?_)
  · exact h (p.1, .inl p.2) (q.1, .inl q.2) rfl hne
  · exact imp_congr_right fun hcomponent => h (p.1, .inr p.2) (q.1, .inr q.2) hcomponent hne

/-- **The entities of a component are published with identities of their own** exactly when none of them collide and
no wildcard is in the way of any. -/
theorem identities_apart_iff {accepts : Request → Bool} (haccepts : RefusesWildcards accepts) (config : MqttConfig)
    {io : IoConfig} (hinputs : (io.inputs.map (·.id)).Nodup) (houtputs : (io.outputs.map (·.id)).Nodup) :
    Each io (PublishedApart accepts config io) ↔
      Each io fun e f => Unimpeded config io e ∧ Unimpeded config io f ∧ ¬ Collide e.1.name e.id f.1.name f.id := by
  refine each_congr hinputs houtputs fun e f hcomponent hne => ?_
  have hapart : Apart (discovery config e) (discovery config f) ↔ _ := apart_iff hcomponent hne
  constructor
  · rintro ⟨he, hf, ha⟩
    exact ⟨(mem_published haccepts).1 he, (mem_published haccepts).1 hf, hapart.1 ha⟩
  · rintro ⟨he, hf, hc⟩
    exact ⟨(mem_published haccepts).2 he, (mem_published haccepts).2 hf, hapart.2 hc⟩

/-- A house of two rooms, with a button and a lamp in each. -/
def twoRooms (room₁ id₁ room₂ id₂ : String) : IoConfig :=
  let button (id : String) : Input := ⟨"Button", id, "", .wiDigitalBP ⟨"10.0.0.1", "502", 1⟩, "switch", true, true⟩
  let light (id : String) : Output := ⟨"Light", id, "", .woDigital ⟨"10.0.0.1", "502", 2⟩, "light", true, true⟩
  ⟨⟨[⟨room₁, "room", [button id₁], [light id₁], 0⟩, ⟨room₂, "room", [button id₂], [light id₂], 0⟩]⟩⟩

def calaosConfig : MqttConfig := ⟨"homeassistant", "calaos"⟩

/-- What `AsyncClient` accepts of the requests made here. -/
def plainOnly : Request → Bool
  | .publish topic _ _ => decide (Plain topic)
  | .subscribe _ => true

theorem plainOnly_refuses : RefusesWildcards plainOnly := fun _ _ _ => decide_eq_true_iff

theorem identities_apart_hall : let io := twoRooms "Hall" "light_1" "Bath" "light_2"
    Each io (PublishedApart plainOnly calaosConfig io) := by
  intro io
  have hnames : ∀ a ∈ ["Hall", "Bath"], '_' ∉ a.toList := by decide
  have hbeside : ¬ Collide "Hall" "light_1" "Bath" "light_2" :=
    not_collide (hnames _ (by decide)) (hnames _ (by decide))
  have hway : ∀ {e : Placed}, e ∈ placed io → Unimpeded calaosConfig io e :=
    unimpeded_of_plain (by decide) (by decide)
  refine (identities_apart_iff plainOnly_refuses calaosConfig (by decide) (by decide)).2 ⟨?_, ?_⟩
  · exact List.pairwise_pair.2
      ⟨hway (by simp [io, twoRooms, placed]), hway (by simp [io, twoRooms, placed]), hbeside⟩
  · exact List.pairwise_pair.2 fun _ =>
      ⟨hway (by simp [io, twoRooms, placed]), hway (by simp [io, twoRooms, placed]), hbeside⟩

/-- The room light of the bath and the light of the bathroom are both published, with one identity. -/
theorem identities_collide_bath :
    let io := twoRooms "Bath" "room_light" "Bath_room" "light"
    (io.inputs.map (·.id)).Nodup ∧ (io.outputs.map (·.id)).Nodup ∧
    published plainOnly calaosConfig io = placed io ∧
    (¬ (placedInputs io).Pairwise fun p q =>
      PublishedApart plainOnly calaosConfig io (p.1, .inl p.2) (q.1, .inl q.2)) ∧
    ¬ (placedOutputs io).Pairwise fun p q => component p.2.kind = component q.2.kind →
      PublishedApart plainOnly calaosConfig io (p.1, .inr p.2) (q.1, .inr q.2) := by
  intro io
  refine ⟨by decide, by decide, rfl, fun h => ?_, fun h => ?_⟩
  · exact (List.pairwise_pair.1 h).apart.1 rfl
  · exact (List.pairwise_pair.1 h rfl).apart.1 rfl

end Calaos.Mqtt
